import DdrdeskHost.FlvTags
import DdrdeskHost.Lib.Runs

namespace DdrdeskHost
open Bytes
set_option autoImplicit true

/-- A call of `next_au` that returns this unit, on a demuxer and the bytes it has not read. -/
def nextUnit (s : FlvH264 × List UInt8) (u : NalUnit) : Option (FlvH264 × List UInt8) :=
  match nextAu s.1 s.2 with
  | (d, r, .ok (some au)) => if au = u then some (d, r) else none
  | _ => none

theorem nextUnit_eq_some : nextUnit s u = some x ↔ nextAu s.1 s.2 = (x.1, x.2, .ok (some u)) := by
  rw [nextUnit]
  split
  · next d r au h =>
    rw [h, Option.ite_none_right_eq_some]
    constructor
    · rintro ⟨rfl, hx⟩
      cases hx
      rfl
    · intro he
      cases he
      exact ⟨rfl, rfl⟩
  · next h =>
    constructor
    · intro hx
      cases hx
    · intro he
      exact absurd he (h _ _ _)

namespace FlvH264

/-- What a tag does to the demuxer, and the unit it emits; `none` if it does not parse. -/
def step (d : FlvH264) (t : RawTag) : Option (FlvH264 × Option NalUnit) :=
  match tagBody d t.tagType t.timestamp t.data with
  | (d', .ok o) => some (d', o)
  | (_, .error _) => none

/-- The demuxer after some tags. -/
def after (d : FlvH264) (ts : List RawTag) : Option FlvH264 :=
  ts.foldlM (fun d t => (d.step t).map Prod.fst) d

variable {d d' : FlvH264} {t : RawTag}

theorem step_eq_some :
    d.step t = some (d', o) ↔ tagBody d t.tagType t.timestamp t.data = (d', .ok o) := by
  rw [step]
  split
  · next d₁ o₁ h => rw [h, Option.some.injEq, Prod.mk.injEq, Prod.mk.injEq, Except.ok.injEq]
  · next d₁ e h => simp [h]

theorem exists_error (h : d.step t = none) :
    ∃ d' e, tagBody d t.tagType t.timestamp t.data = (d', .error e) := by
  rw [step] at h
  split at h
  · cases h
  · next d₁ e he => exact ⟨d₁, e, he⟩

theorem after_cons (h : d.step t = some (d', o)) (ts : List RawTag) :
    d.after (t :: ts) = d'.after ts := by
  rw [after, List.foldlM_cons, h]
  rfl

theorem after_append (ts ts' : List RawTag) :
    d.after (ts ++ ts') = (d.after ts).bind fun d' => d'.after ts' := by
  rw [after, List.foldlM_append]
  rfl

theorem after_cons_eq_some (h : d.after (t :: ts) = some d₁) :
    ∃ d' o, d.step t = some (d', o) ∧ d'.after ts = some d₁ := by
  cases hs : d.step t with
  | none =>
    rw [after, List.foldlM_cons, hs] at h
    cases h
  | some p =>
    obtain ⟨d', o⟩ := p
    rw [after_cons hs] at h
    exact ⟨d', o, rfl, h⟩

theorem readTag_of_step (h : d.step t = some (d', o)) (r : List UInt8) :
    readTag d (t.bytes ++ r) = (d', r, .ok (some o)) := by
  rw [readTag_whole, step_eq_some.1 h]
  rfl

theorem step_of_readTag (h : readTag d r = (d', r', .ok (some o))) :
    ∃ t, r = t.bytes ++ r' ∧ d.step t = some (d', o) := by
  cases hr : RawTag.read r with
  | none =>
    rw [readTag_cut hr] at h
    split at h <;> cases h
  | some p =>
    obtain ⟨t, r''⟩ := p
    obtain rfl := RawTag.eq_bytes_of_read hr
    cases hs : d.step t with
    | none =>
      obtain ⟨d₁, e, he⟩ := exists_error hs
      rw [readTag_whole, he] at h
      cases h
    | some q =>
      obtain ⟨d₁, o₁⟩ := q
      rw [readTag_of_step hs] at h
      cases h
      exact ⟨t, rfl, hs⟩

end FlvH264

section
variable {d d' : FlvH264} {t : RawTag}

theorem step_of_nextAu (h : nextAu d r = (d', r', .ok (some u))) :
    ∃ pre t d₁, r = tagCode.encodeAll (pre ++ [t]) ++ r' ∧ d.after pre = some d₁ ∧
      d₁.step t = some (d', some u) := by
  fun_induction nextAu d r with
  | case1 => cases h
  | case2 => cases h
  | case3 d r d₁ r₁ au hr =>
    cases h
    obtain ⟨t, rfl, hs⟩ := FlvH264.step_of_readTag hr
    exact ⟨[], t, d, (congrArg (· ++ _) (tagCode.encodeAll_singleton t)).symm, rfl, hs⟩
  | case4 d r d₁ r₁ hr ih =>
    obtain ⟨t, rfl, hs⟩ := FlvH264.step_of_readTag hr
    obtain ⟨pre, t', d₂, rfl, hpre, ht⟩ := ih h
    refine ⟨t :: pre, t', d₂, ?_, ?_, ht⟩
    · rw [List.cons_append, PrefixCode.encodeAll_cons, List.append_assoc]
      rfl
    · rw [FlvH264.after_cons hs, hpre]

theorem after_of_run (h : Run (Steps nextUnit) (d, r) us (d', r')) :
    ∃ tags, r = tagCode.encodeAll tags ++ r' ∧ d.after tags = some d' := by
  induction us generalizing d r with
  | nil =>
    cases h
    exact ⟨[], rfl, rfl⟩
  | cons u us ih =>
    cases h with
    | @cons _ _ x _ _ hst hr =>
      obtain ⟨d₁, r₁⟩ := x
      obtain ⟨pre, t, d₂, rfl, hpre, ht⟩ := step_of_nextAu (nextUnit_eq_some.1 hst)
      obtain ⟨tags, rfl, hs⟩ := ih hr
      refine ⟨pre ++ t :: tags, ?_, ?_⟩
      · simp only [PrefixCode.encodeAll_append, PrefixCode.encodeAll_cons,
          PrefixCode.encodeAll_nil, List.append_nil, List.append_assoc]
      · rw [FlvH264.after_append, hpre, Option.bind_some, FlvH264.after_cons ht, hs]

theorem step_of_run (h : Run (Steps nextUnit) (d, r) (us ++ [u]) (d', r')) :
    ∃ pre t d₁, r = tagCode.encodeAll (pre ++ [t]) ++ r' ∧ d.after pre = some d₁ ∧
      d₁.step t = some (d', some u) := by
  obtain ⟨⟨d₁, r₁⟩, h₁, h₂⟩ := h.split
  obtain ⟨tags, rfl, hs⟩ := after_of_run h₁
  cases h₂ with
  | cons hst hr =>
    cases hr
    obtain ⟨pre, t, d₂, hbytes, hpre, ht⟩ := step_of_nextAu (nextUnit_eq_some.1 hst)
    simp only at hbytes hpre
    refine ⟨tags ++ pre, t, d₂, ?_, ?_, ht⟩
    · rw [hbytes, List.append_assoc, PrefixCode.encodeAll_append _ tags, List.append_assoc]
    · rw [FlvH264.after_append, hs, Option.bind_some, hpre]

theorem run_congr (h : Run (Steps nextUnit) x (us ++ [u]) y)
    (hx : nextAu x.1 x.2 = nextAu x'.1 x'.2) : Run (Steps nextUnit) x' (us ++ [u]) y := by
  generalize hvs : us ++ [u] = vs at h
  cases h with
  | nil => simp at hvs
  | cons hst hr =>
    apply Run.cons _ hr
    rw [Steps, nextUnit_eq_some] at hst ⊢
    rw [← hx, hst]

theorem run_of_step (hpre : d.after pre = some d₁) (ht : d₁.step t = some (d', some u))
    (r : List UInt8) :
    ∃ us, Run (Steps nextUnit) (d, tagCode.encodeAll (pre ++ [t]) ++ r) (us ++ [u]) (d', r) := by
  induction pre generalizing d with
  | nil =>
    cases hpre
    have hread := nextAu_emit (FlvH264.readTag_of_step ht r)
    refine ⟨[], .single ?_⟩
    rw [Steps, nextUnit_eq_some, List.nil_append, PrefixCode.encodeAll_singleton]
    exact hread
  | cons t' pre ih =>
    obtain ⟨d₂, o, hs, hpre⟩ := FlvH264.after_cons_eq_some hpre
    obtain ⟨us, hrun⟩ := ih hpre
    have hread := FlvH264.readTag_of_step hs (tagCode.encodeAll (pre ++ [t]) ++ r)
    rw [List.cons_append, PrefixCode.encodeAll_cons, List.append_assoc]
    cases o with
    | none =>
      refine ⟨us, run_congr hrun ?_⟩
      exact (nextAu_skip hread).symm
    | some v =>
      refine ⟨v :: us, .cons ?_ hrun⟩
      rw [Steps, nextUnit_eq_some]
      exact nextAu_emit hread

end

theorem tagsOf_append (ts : List RawTag) (r : List UInt8) :
    tagsOf (tagCode.encodeAll ts ++ r) = ts ++ tagsOf r := by
  rw [tagsOf, tagCode.decodeAll_encodeAll_append fun _ _ => trivial]
  rfl

theorem exists_of_tagsOf (h : tagsOf r = pre ++ t :: post) :
    ∃ r', r = tagCode.encodeAll (pre ++ [t]) ++ r' := by
  have hs := (tagCode.decodeAll_spec r).1
  change r = tagCode.encodeAll (tagsOf r) ++ _ at hs
  rw [h, List.append_cons, PrefixCode.encodeAll_append, List.append_assoc] at hs
  exact ⟨_, hs⟩

section
variable {d d' : FlvH264} {t : RawTag}

theorem demux_error (h : readTag d r = (d', r', .error e)) : demux d r = ([], d', .error e) := by
  have hn : nextAu d r = (d', r', .error e) := by
    rw [nextAu]
    split <;> rename_i hr <;> rw [h] at hr <;> cases hr
    rfl
  rw [demux]
  split <;> rename_i hr <;> rw [hn] at hr <;> cases hr
  rfl

theorem demux_cut (h : RawTag.read r = none) (d : FlvH264) :
    demux d r = ([], d, if r.length < 11 then .ok () else .error .unexpectedEof) := by
  have hread := readTag_cut h d
  by_cases hlen : r.length < 11
  · rw [if_pos hlen] at hread ⊢
    exact demux_eof hread
  · rw [if_neg hlen] at hread ⊢
    exact demux_error hread

theorem demux_step (h : d.step t = some (d', o)) (r : List UInt8) :
    demux d (t.bytes ++ r) = (o.toList ++ (demux d' r).1, (demux d' r).2) := by
  have hread := FlvH264.readTag_of_step h r
  cases o with
  | none =>
    rw [demux_skip hread]
    rfl
  | some u => exact demux_emit hread

theorem demux_step_none (h : d.step t = none) :
    ∃ d' e, ∀ r, demux d (t.bytes ++ r) = ([], d', .error e) := by
  obtain ⟨d', e, he⟩ := FlvH264.exists_error h
  refine ⟨d', e, ?_⟩
  intro r
  have hread : readTag d (t.bytes ++ r) = (d', r, .error e) := by
    rw [readTag_whole, he]
    rfl
  exact demux_error hread

theorem demux_prefix (d : FlvH264) (s t : List UInt8) : (demux d s).1 <+: (demux d (s ++ t)).1 := by
  fun_induction tagCode.decodeAll s generalizing d with
  | case1 s h =>
    rw [demux_cut h]
    exact List.nil_prefix
  | case2 s tag r h ih =>
    obtain rfl := RawTag.eq_bytes_of_read h
    rw [List.append_assoc]
    cases hs : d.step tag with
    | none =>
      obtain ⟨d', e, he⟩ := demux_step_none hs
      rw [he]
      exact List.nil_prefix
    | some p =>
      obtain ⟨d', o⟩ := p
      rw [demux_step hs, demux_step hs]
      exact (List.prefix_append_right_inj _).2 (ih d')

/-- Behind whole tags that parse, demuxing goes on in the state that they leave. -/
theorem demux_tags {tags : List RawTag} (h : (demux d (tagCode.encodeAll tags)).2 = (d', .ok ()))
    (t : List UInt8) :
    demux d (tagCode.encodeAll tags ++ t) =
      ((demux d (tagCode.encodeAll tags)).1 ++ (demux d' t).1, (demux d' t).2) := by
  induction tags generalizing d with
  | nil =>
    have hnil : RawTag.read [] = none := tagCode.decode_nil
    rw [PrefixCode.encodeAll_nil, demux_cut hnil] at h ⊢
    cases h
    rfl
  | cons tag tags ih =>
    rw [PrefixCode.encodeAll_cons] at h ⊢
    rw [List.append_assoc]
    change (demux d (tag.bytes ++ _)).2 = _ at h
    change demux d (tag.bytes ++ _) = ((demux d (tag.bytes ++ _)).1 ++ _, _)
    cases hs : d.step tag with
    | none =>
      obtain ⟨d₁, e, he⟩ := demux_step_none hs
      rw [he] at h
      cases h
    | some p =>
      obtain ⟨d₁, o⟩ := p
      rw [demux_step hs] at h ⊢
      rw [demux_step hs, ih h, List.append_assoc]

end

/-- What is not yet written changes no unit that is delivered; between two tags, the demuxer's
state says all about what has been read. -/
theorem demux_monotone (d : FlvH264) (s t : List UInt8) :
    (demux d s).1 <+: (demux d (s ++ t)).1 ∧
    ∀ tags d', s = tagCode.encodeAll tags → (demux d s).2 = (d', .ok ()) →
      demux d (s ++ t) = ((demux d s).1 ++ (demux d' t).1, (demux d' t).2) := by
  constructor
  · exact demux_prefix d s t
  · rintro tags d' rfl h
    exact demux_tags h t

end DdrdeskHost
