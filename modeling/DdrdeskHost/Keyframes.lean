import DdrdeskHost.Demux
import DdrdeskHost.FlvRoundTrip

namespace DdrdeskHost
open Bytes
set_option autoImplicit true

/-- The data begins with the SPS and PPS of the latest sequence header, one of each at least. -/
def BeginsWithSets (seen : List UInt8) (u : NalUnit) : Prop :=
  ∃ rec sps pps, lastWrite RawTag.record (tagsOf seen) = some rec ∧
    recordSets rec = some (sps, pps) ∧ sps ≠ [] ∧ pps ≠ [] ∧ annexB (sps ++ pps) <+: u.data

/-- Each keyframe that the demuxer gets to comes after a header with an SPS and a PPS, or there is
nothing to emit. -/
def KeysHaveSets (stream : List UInt8) : Prop :=
  ∀ pre t post s body nals, tagsOf stream = pre ++ t :: post → Sets.new.after pre = some s →
    t.content = .picture true body → nalsOf s.lengthSize s.lengthSize_pos body = some nals →
    s.sps ≠ [] ∧ s.pps ≠ [] ∨ s.nals true nals = []

namespace Sets
variable {s : Sets} {t : RawTag}

theorem demuxer_step (s : Sets) (t : RawTag) :
    s.demuxer.step t = (s.step t).map fun p => (p.1.demuxer, p.2) := by
  cases hs : s.step t with
  | none =>
    obtain ⟨d, e, he⟩ := (s.tagBody_step t).2 hs
    rw [FlvH264.step, he]
    rfl
  | some p => exact FlvH264.step_eq_some.2 ((s.tagBody_step t).1 p.1 p.2 hs)

theorem after_cons (h : s.step t = some (s', o)) (ts : List RawTag) :
    s.after (t :: ts) = s'.after ts := by
  rw [after, List.foldlM_cons, h]
  rfl

theorem after_cons_none (h : s.step t = none) (ts : List RawTag) : s.after (t :: ts) = none := by
  rw [after, List.foldlM_cons, h]
  rfl

theorem demuxer_after (s : Sets) (ts : List RawTag) :
    s.demuxer.after ts = (s.after ts).map Sets.demuxer := by
  induction ts generalizing s with
  | nil => rfl
  | cons t ts ih =>
    have hstep := s.demuxer_step t
    cases hs : s.step t with
    | none =>
      rw [hs] at hstep
      rw [after_cons_none hs, FlvH264.after, List.foldlM_cons, hstep]
      rfl
    | some p =>
      obtain ⟨s', o⟩ := p
      rw [hs] at hstep
      rw [after_cons hs, FlvH264.after_cons hstep]
      exact ih s'

end Sets

section
variable {s s' : Sets} {t : RawTag}

theorem step_eq_unit (h : s.step t = some (s', some u)) :
    ∃ body nals, t.content = .picture u.keyframe body ∧
      nalsOf s.lengthSize s.lengthSize_pos body = some nals ∧
      s.nals u.keyframe nals ≠ [] ∧ u.data = annexB (s.nals u.keyframe nals) := by
  rw [Sets.step] at h
  cases hc : t.content with
  | ignored =>
    rw [hc] at h
    cases h
  | header rec =>
    simp only [hc] at h
    obtain ⟨s'', -, he⟩ := Option.map_eq_some_iff.1 h
    cases he
  | picture key body =>
    simp only [hc] at h
    obtain ⟨nals, hn, he⟩ := Option.map_eq_some_iff.1 h
    obtain ⟨hne, hu⟩ := Option.ite_none_left_eq_some.1 (Prod.mk.inj he).2
    cases hu
    exact ⟨body, nals, rfl, hn, hne, rfl⟩

theorem step_picture (hc : t.content = .picture key body)
    (hn : nalsOf s.lengthSize s.lengthSize_pos body = some nals) :
    s.step t = some (s, s.unit key t.timestamp nals) := by
  simp only [Sets.step, hc, hn, Option.map_some]

theorem step_record (h : s.step t = some (s', o)) :
    match t.record with
    | none => s' = s
    | some rec => Sets.ofRecord rec = some s' := by
  rw [Sets.step] at h
  rw [RawTag.record]
  cases hc : t.content with
  | ignored =>
    rw [hc] at h
    cases h
    rfl
  | header rec =>
    simp only [hc] at h
    obtain ⟨s'', hs, he⟩ := Option.map_eq_some_iff.1 h
    cases he
    exact hs
  | picture key body =>
    simp only [hc] at h
    obtain ⟨nals, -, he⟩ := Option.map_eq_some_iff.1 h
    cases he
    rfl

theorem after_record (h : s.after ts = some s') :
    match lastWrite RawTag.record ts with
    | none => s' = s
    | some rec => Sets.ofRecord rec = some s' := by
  induction ts generalizing s with
  | nil =>
    cases h
    rfl
  | cons t ts ih =>
    cases hs : s.step t with
    | none =>
      rw [Sets.after_cons_none hs] at h
      cases h
    | some p =>
      obtain ⟨s₁, o⟩ := p
      rw [Sets.after_cons hs] at h
      have ih := ih h
      rw [lastWrite_cons]
      cases hl : lastWrite RawTag.record ts with
      | some rec =>
        rw [hl] at ih
        exact ih
      | none =>
        rw [hl] at ih
        simp only at ih
        subst ih
        exact step_record hs

theorem recordSets_of_ofRecord (h : Sets.ofRecord rec = some s) :
    recordSets rec = some (s.sps, s.pps) := by
  obtain ⟨-, h⟩ := Option.ite_none_left_eq_some.1 h
  obtain ⟨p, hp, hs⟩ := Option.map_eq_some_iff.1 h
  cases hs
  exact hp

theorem lastWrite_picture (hc : t.content = .picture key body) (ts : List RawTag) :
    lastWrite RawTag.record (tagsOf (tagCode.encodeAll (ts ++ [t]))) =
      lastWrite RawTag.record ts := by
  have htags := tagsOf_append (ts ++ [t]) []
  rw [List.append_nil] at htags
  have hnil : tagsOf [] = [] := by rw [tagsOf, tagCode.decodeAll_none tagCode.decode_nil]
  rw [htags, hnil, List.append_nil, lastWrite_concat, RawTag.record, hc]
  rfl

theorem picture_of_run (h : Run (Steps nextUnit) ({}, stream) (us ++ [u]) (d, r)) :
    ∃ pre t post s body nals, stream = tagCode.encodeAll (pre ++ [t]) ++ r ∧
      tagsOf stream = pre ++ t :: post ∧ Sets.new.after pre = some s ∧
      t.content = .picture u.keyframe body ∧
      nalsOf s.lengthSize s.lengthSize_pos body = some nals ∧
      s.nals u.keyframe nals ≠ [] ∧ u.data = annexB (s.nals u.keyframe nals) := by
  obtain ⟨pre, t, d₁, hbytes, hd, ht⟩ := step_of_run h
  have hafter := Sets.new.demuxer_after pre
  obtain ⟨s, hpre, rfl⟩ := Option.map_eq_some_iff.1 (hafter.symm.trans hd)
  rw [s.demuxer_step] at ht
  obtain ⟨⟨s', o⟩, hs, he⟩ := Option.map_eq_some_iff.1 ht
  obtain rfl : o = some u := (Prod.mk.inj he).2
  obtain ⟨body, nals, hc, hn, hne, hdata⟩ := step_eq_unit hs
  have htags : tagsOf stream = pre ++ t :: tagsOf r := by
    rw [hbytes, tagsOf_append, List.append_assoc]
    rfl
  exact ⟨pre, t, tagsOf r, s, body, nals, hbytes, htags, hpre, hc, hn, hne, hdata⟩

theorem run_of_picture (htags : tagsOf stream = pre ++ t :: post)
    (hpre : Sets.new.after pre = some s) (hc : t.content = .picture key body)
    (hn : nalsOf s.lengthSize s.lengthSize_pos body = some nals) (hne : s.nals key nals ≠ []) :
    ∃ us u d r, Run (Steps nextUnit) ({}, stream) (us ++ [u]) (d, r) ∧
      stream = tagCode.encodeAll (pre ++ [t]) ++ r ∧ u.keyframe = key ∧
      u.data = annexB (s.nals key nals) := by
  obtain ⟨r, hr⟩ := exists_of_tagsOf htags
  have hstep := step_picture hc hn
  rw [Sets.unit, if_neg hne] at hstep
  have hd : FlvH264.after {} pre = some s.demuxer := by
    have hafter := Sets.new.demuxer_after pre
    rwa [hpre] at hafter
  have ht := s.demuxer_step t
  rw [hstep] at ht
  obtain ⟨us, hrun⟩ := run_of_step hd ht r
  rw [← hr] at hrun
  exact ⟨us, _, _, r, hrun, hr, rfl, rfl⟩

end

/-- Every unit that is marked as a keyframe begins with the sets of the latest header, if and only
if the keyframes that the demuxer gets to come after a header with an SPS and a PPS. -/
theorem keyframes_begin_with_sets (stream : List UInt8) :
    (∀ us u d r seen, Run (Steps nextUnit) ({}, stream) (us ++ [u]) (d, r) →
      stream = seen ++ r → u.keyframe = true → BeginsWithSets seen u) ↔
    KeysHaveSets stream := by
  constructor
  · intro h pre t post s body nals htags hpre hc hn
    by_cases hne : s.nals true nals = []
    · exact .inr hne
    · left
      obtain ⟨us, u, d, r, hrun, hr, hkey, -⟩ := run_of_picture htags hpre hc hn hne
      obtain ⟨rec, sps, pps, hrec, hsets, hsps, hpps, -⟩ := h us u d r _ hrun hr hkey
      rw [lastWrite_picture hc] at hrec
      have hlatest := after_record hpre
      rw [hrec] at hlatest
      cases (recordSets_of_ofRecord hlatest).symm.trans hsets
      exact ⟨hsps, hpps⟩
  · intro h us u d r seen hrun hseen hkey
    obtain ⟨pre, t, post, s, body, nals, hbytes, htags, hpre, hc, hn, hne, hdata⟩ :=
      picture_of_run hrun
    obtain rfl : seen = tagCode.encodeAll (pre ++ [t]) :=
      List.append_cancel_right (hseen.symm.trans hbytes)
    rw [hkey] at hc hne hdata
    obtain ⟨hsps, hpps⟩ := (h pre t post s body nals htags hpre hc hn).resolve_right hne
    have hlatest := after_record hpre
    cases hrec : lastWrite RawTag.record pre with
    | none =>
      rw [hrec] at hlatest
      rw [hlatest] at hsps
      exact absurd rfl hsps
    | some rec =>
      rw [hrec] at hlatest
      refine ⟨rec, s.sps, s.pps, ?_, recordSets_of_ofRecord hlatest, hsps, hpps, ?_⟩
      · rw [lastWrite_picture hc, hrec]
      · rw [hdata, Sets.nals, if_pos rfl, annexB_append (s.sps ++ s.pps)]
        exact List.prefix_append _ _

theorem nextUnit_tag {t : Tag} (hlen : (t.body.data 4).length < 2 ^ 24) (he : t.body.Encodable 4)
    (hu : t.unit [] = some u) (r : List UInt8) :
    ∃ d, nextUnit ({}, t.bytes 4 ++ r) u = some (d, r) := by
  have hread := readTag_bytes hlen {} r
  have hunit : tagBody { spsPps := annexB [], naluSizeLen := 4 } _ _ _ = _ :=
    tagBody_unit (by decide) (by decide) he
  have hstate : ({ spsPps := annexB [], naluSizeLen := 4 } : FlvH264) = {} := rfl
  rw [hstate] at hunit
  rw [hunit, hu] at hread
  exact ⟨_, nextUnit_eq_some.2 (nextAu_emit hread)⟩

/-- A picture of one NAL unit, in a tag of its own. -/
def onePicture (frameType : Fin 16) (nal : List UInt8) : Tag :=
  ⟨0, .nalus frameType ⟨0, by decide⟩ [nal]⟩

/-- A keyframe stands in front of every header. -/
theorem keyframe_without_sets :
    ¬∀ stream us u d r seen, Run (Steps nextUnit) ({}, stream) (us ++ [u]) (d, r) →
      stream = seen ++ r → u.keyframe = true → BeginsWithSets seen u := by
  intro h
  obtain ⟨d, hunit⟩ := nextUnit_tag (t := onePicture 1 [0x65]) (by decide)
    ⟨⟨[0x65], by decide⟩, by decide⟩ rfl []
  obtain ⟨rec, sps, pps, -, -, hsps, hpps, hpre⟩ := h _ [] _ _ [] _ (.single hunit) rfl rfl
  -- two parameter sets take eight bytes at least, and the unit has five
  have hsets := four_mul_length_le (sps ++ pps)
  have hlen : (annexB (sps ++ pps)).length ≤ 5 := hpre.length_le
  have hsps := List.length_pos_of_ne_nil hsps
  have hpps := List.length_pos_of_ne_nil hpps
  rw [List.length_append] at hsets
  omega

end DdrdeskHost
