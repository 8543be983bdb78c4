import DdrdeskHost.AnnexB
import DdrdeskHost.Demux

namespace DdrdeskHost
open Bytes
set_option autoImplicit true

/-- The unit holds a NAL unit of the tag's own body. -/
def HoldsPicture (d : FlvH264) (t : RawTag) (u : NalUnit) : Prop :=
  ∃ key body nals n, t.content = .picture key body ∧ Blocks d.naluSizeLen body nals ∧
    n ∈ nals ∧ n ≠ [] ∧ startCode ++ n <:+: u.data

/-- A picture tag without a NAL unit, or with empty ones only. -/
def NoPicture (d : FlvH264) (t : RawTag) : Prop :=
  ∃ key body nals, t.content = .picture key body ∧ Blocks d.naluSizeLen body nals ∧
    nonEmpty nals = []

/-- Such a tag is marked as a keyframe, and there are parameter sets to put in front of it. -/
def EmptyKeyframe (d : FlvH264) (t : RawTag) : Prop :=
  d.spsPps ≠ [] ∧ d.naluSizeLen ≤ 4 ∧
    ∃ body nals, t.content = .picture true body ∧ Blocks d.naluSizeLen body nals ∧
      nonEmpty nals = []

section
variable {d d' : FlvH264} {t : RawTag}

/-- What stands in front of the NAL units of a picture. -/
def FlvH264.front (d : FlvH264) (key : Bool) : List UInt8 := if key then d.spsPps else []

theorem step_blocks (hc : t.content = .picture key body) (hb : Blocks d.naluSizeLen body nals)
    (hk4 : d.naluSizeLen ≤ 4) :
    d.step t = some (d,
      if d.front key ++ annexB (nonEmpty nals) = [] then none
      else some { keyframe := key, ptsUs := t.timestamp.toUInt64 * 1000,
                  data := d.front key ++ annexB (nonEmpty nals) }) := by
  have hfront : (if key && !d.spsPps.isEmpty then d.spsPps else []) = d.front key := by
    cases key with
    | false => rfl
    | true => cases hs : d.spsPps <;> simp [FlvH264.front, hs]
  rw [FlvH264.step_eq_some, Sets.tagBody_content, hc]
  simp only [hfront, avccToAnnexb_blocks hb.pos hk4 hb, List.isEmpty_iff]
  split
  · rfl
  · rfl

theorem unit_of_step (h : d.step t = some (d', some u)) :
    ∃ key body nals, t.content = .picture key body ∧ Blocks d.naluSizeLen body nals ∧
      d.naluSizeLen ≤ 4 ∧ u.data = d.front key ++ annexB (nonEmpty nals) ∧ u.data ≠ [] := by
  have htag := FlvH264.step_eq_some.1 h
  rw [Sets.tagBody_content] at htag
  cases hc : t.content with
  | ignored =>
    rw [hc] at htag
    cases htag
  | header rec =>
    simp only [hc] at htag
    cases hp : (parseAvcc d rec).2 with
    | error e =>
      rw [hp] at htag
      cases htag
    | ok x =>
      rw [hp] at htag
      cases htag
  | picture key body =>
    simp only [hc] at htag
    split at htag
    · cases htag
    · next out hout =>
      obtain ⟨-, hk4, nals, hb⟩ := blocks_of_avccToAnnexb hout
      rw [step_blocks hc hb hk4] at h
      obtain ⟨hne, hu⟩ := Option.ite_none_left_eq_some.1 (Prod.mk.inj (Option.some.inj h)).2
      cases hu
      exact ⟨key, body, nals, rfl, hb, hk4, rfl, hne⟩

theorem infix_annexB (hn : n ∈ nals) (hne : n ≠ []) (front : List UInt8) :
    startCode ++ n <:+: front ++ annexB (nonEmpty nals) := by
  have hmem : n ∈ nonEmpty nals := by
    apply List.mem_filter.2
    simpa using ⟨hn, hne⟩
  obtain ⟨xs, ys, he⟩ := List.append_of_mem hmem
  refine ⟨front ++ annexB xs, annexB ys, ?_⟩
  rw [he, annexB_append, annexB_cons, List.append_assoc, List.append_assoc]

theorem exists_of_nonEmpty (h : nonEmpty nals ≠ []) : ∃ n ∈ nals, n ≠ [] := by
  obtain ⟨n, hn⟩ := List.exists_mem_of_ne_nil _ h
  obtain ⟨hmem, hne⟩ := List.mem_filter.1 hn
  exact ⟨n, hmem, by simpa using hne⟩

theorem holdsPicture_of_step (h : d.step t = some (d', some u)) (he : ¬EmptyKeyframe d t) :
    HoldsPicture d t u := by
  obtain ⟨key, body, nals, hc, hb, hk4, hdata, hne⟩ := unit_of_step h
  have hnals : nonEmpty nals ≠ [] := by
    intro hnil
    rw [hdata, hnil] at hne
    cases key with
    | false => exact hne rfl
    | true =>
      refine he ⟨?_, hk4, body, nals, hc, hb, hnil⟩
      intro hsets
      exact hne (congrArg (· ++ []) hsets)
  obtain ⟨n, hn, hnn⟩ := exists_of_nonEmpty hnals
  exact ⟨key, body, nals, n, hc, hb, hn, hnn, hdata ▸ infix_annexB hn hnn _⟩

theorem exists_unit (h : EmptyKeyframe d t) : ∃ u, d.step t = some (d, some u) := by
  obtain ⟨hsets, hk4, body, nals, hc, hb, hnil⟩ := h
  have hstep := step_blocks hc hb hk4
  have hne : d.front true ++ annexB (nonEmpty nals) ≠ [] := by
    rw [hnil]
    exact List.append_ne_nil_of_left_ne_nil hsets _
  rw [if_neg hne] at hstep
  exact ⟨_, hstep⟩

end

/-- Every unit holds a NAL unit of its own tag, and a tag without one emits no unit, if and only if
no tag that the demuxer gets to is a keyframe without NAL units, behind parameter sets. -/
theorem units_hold_pictures (d : FlvH264) (stream : List UInt8) :
    ((∀ us u d' r, Run (Steps nextUnit) (d, stream) (us ++ [u]) (d', r) →
        ∃ pre t d₁, stream = tagCode.encodeAll (pre ++ [t]) ++ r ∧ d.after pre = some d₁ ∧
          HoldsPicture d₁ t u) ∧
      ∀ pre t post d₁, tagsOf stream = pre ++ t :: post → d.after pre = some d₁ →
        NoPicture d₁ t → ∀ d' u, d₁.step t ≠ some (d', some u)) ↔
    ∀ pre t post d₁, tagsOf stream = pre ++ t :: post → d.after pre = some d₁ →
      ¬EmptyKeyframe d₁ t := by
  constructor
  · rintro ⟨-, h⟩ pre t post d₁ htags hpre he
    obtain ⟨u, hu⟩ := exists_unit he
    obtain ⟨-, -, body, nals, hc, hb, hnil⟩ := he
    exact h pre t post d₁ htags hpre ⟨true, body, nals, hc, hb, hnil⟩ d₁ u hu
  · intro h
    constructor
    · intro us u d' r hrun
      obtain ⟨pre, t, d₁, hbytes, hpre, ht⟩ := step_of_run hrun
      have htags : tagsOf stream = pre ++ t :: tagsOf r := by
        rw [hbytes, tagsOf_append, List.append_assoc]
        rfl
      exact ⟨pre, t, d₁, hbytes, hpre,
        holdsPicture_of_step ht (h pre t (tagsOf r) d₁ htags hpre)⟩
    · rintro pre t post d₁ htags hpre ⟨key, body, nals, hc, hb, hnil⟩ d' u hu
      have hpicture := holdsPicture_of_step hu (h pre t post d₁ htags hpre)
      obtain ⟨key', body', nals', n, hc', hb', hn, hne, -⟩ := hpicture
      -- the tag has one body, and the body one list of blocks
      cases hc.symm.trans hc'
      obtain rfl := hb.unique hb'
      have hmem : n ∈ nonEmpty nals := by
        apply List.mem_filter.2
        simpa using ⟨hn, hne⟩
      rw [hnil] at hmem
      cases hmem

/-- A sequence header with an SPS and a PPS. -/
def headerTag : RawTag where
  hdr := [9, 0, 0, 19, 0, 0, 0, 0, 0, 0, 0]
  data := [0x17, 0, 0, 0, 0, 1, 100, 0, 31, 0xff, 0xe1, 0, 2, 0x67, 100, 1, 0, 1, 0x68]
  prev := [0, 0, 0, 30]
  hdr_length := rfl
  data_length := rfl
  prev_length := rfl

/-- A keyframe tag whose body is empty. -/
def emptyTag : RawTag where
  hdr := [9, 0, 0, 5, 0, 0, 0, 0, 0, 0, 0]
  data := [0x17, 1, 0, 0, 0]
  prev := [0, 0, 0, 16]
  hdr_length := rfl
  data_length := rfl
  prev_length := rfl

/-- The parameter sets alone become a unit. -/
theorem unit_without_picture :
    ¬∀ (d : FlvH264) (stream : List UInt8),
      (∀ us u d' r, Run (Steps nextUnit) (d, stream) (us ++ [u]) (d', r) →
        ∃ pre t d₁, stream = tagCode.encodeAll (pre ++ [t]) ++ r ∧ d.after pre = some d₁ ∧
          HoldsPicture d₁ t u) ∧
      ∀ pre t post d₁, tagsOf stream = pre ++ t :: post → d.after pre = some d₁ →
        NoPicture d₁ t → ∀ d' u, d₁.step t ≠ some (d', some u) := by
  intro h
  have htags : tagsOf (tagCode.encodeAll [headerTag, emptyTag]) = [headerTag, emptyTag] := by
    rw [tagsOf, tagCode.decodeAll_encodeAll fun _ _ => trivial]
  have hafter : FlvH264.after {} [headerTag] =
      some ⟨[0, 0, 0, 1, 0x67, 100, 0, 0, 0, 1, 0x68], 4⟩ := by decide
  have hblocks : Blocks 4 [] [] := ⟨by simp, [], rfl, by decide⟩
  obtain ⟨u, hu⟩ := exists_unit (d := ⟨[0, 0, 0, 1, 0x67, 100, 0, 0, 0, 1, 0x68], 4⟩)
    (t := emptyTag) ⟨by decide, by decide, [], [], rfl, hblocks, rfl⟩
  exact (h {} (tagCode.encodeAll [headerTag, emptyTag])).2 [headerTag] emptyTag [] _ htags hafter
    ⟨true, [], [], rfl, hblocks, rfl⟩ _ u hu

end DdrdeskHost
