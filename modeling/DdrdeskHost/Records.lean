import DdrdeskHost.FlvTags

namespace DdrdeskHost
open Bytes
set_option autoImplicit true

/-- What may stand behind the SPS: nothing, or a count, that many PPS and any bytes. -/
inductive PpsPart : List (List UInt8) → List UInt8 → Prop
  | absent : PpsPart [] []
  | counted (n : UInt8) (rest : List UInt8) (hn : pps.length = n.toNat)
      (hx : ∀ x ∈ pps, x.length < 2 ^ 16) : PpsPart pps (n :: (lengthPrefixed 2 pps ++ rest))

/-- A configuration record with these parameter sets. -/
inductive ConfigRecord (sps pps : List (List UInt8)) : List UInt8 → Prop
  | mk (head : List UInt8) (count : UInt8) (part : List UInt8) (hhead : head.length = 5)
      (hcount : sps.length = (count &&& 0x1f).toNat) (hx : ∀ x ∈ sps, x.length < 2 ^ 16)
      (hpart : PpsPart pps part) :
      ConfigRecord sps pps (head ++ count :: (lengthPrefixed 2 sps ++ part))

/-- The length size that a record asks for. -/
def lengthSizeOf (rec : List UInt8) : Nat := (rec.getD 4 0).toNat % 4 + 1

theorem lengthSizeOf_eq (rec : List UInt8) : (rec.getD 4 0 &&& 3).toNat + 1 = lengthSizeOf rec := by
  have hbits : (rec.getD 4 0).toNat &&& 3 = (rec.getD 4 0).toNat % 4 :=
    Nat.and_two_pow_sub_one_eq_mod _ 2
  rw [lengthSizeOf, UInt8.toNat_and, ← hbits]
  rfl

theorem split_record {rec : List UInt8} (h : 6 ≤ rec.length) :
    rec = rec.take 5 ++ rec.getD 5 0 :: rec.drop 6 := by
  have hlt : 5 < rec.length := h
  rw [List.getD_eq_getElem _ _ hlt, ← List.drop_eq_getElem_cons hlt, List.take_append_drop]

theorem recordSets_of_configRecord (h : ConfigRecord sps pps rec) :
    recordSets rec = some (sps, pps) := by
  obtain ⟨head, count, part, hhead, hcount, hsps, hpart⟩ := h
  have hget : (head ++ count :: (lengthPrefixed 2 sps ++ part)).getD 5 0 = count := by
    rw [← hhead]
    simp
  have hdrop : (head ++ count :: (lengthPrefixed 2 sps ++ part)).drop 6 =
      lengthPrefixed 2 sps ++ part := by
    have hsix : (head ++ [count]).length = 6 := by rw [List.length_append, hhead]; rfl
    rw [List.append_cons, List.drop_left' hsix]
  rw [recordSets, hget, hdrop, ← hcount, lengthPrefixed_eq Nat.two_pos,
    PrefixCode.decodeN_encodeAll _ hsps, Option.bind_some]
  cases hpart with
  | absent => rfl
  | counted n rest hn hpps =>
    simp only
    rw [← hn, lengthPrefixed_eq Nat.two_pos, PrefixCode.decodeN_encodeAll _ hpps]
    rfl

theorem configRecord_of_recordSets (hlen : 6 ≤ rec.length)
    (h : recordSets rec = some (sps, pps)) : ConfigRecord sps pps rec := by
  obtain ⟨⟨xs, part⟩, hsps, h⟩ := Option.bind_eq_some_iff.1 h
  obtain ⟨hcount, hx, hdrop⟩ := PrefixCode.decodeN_eq_some _ hsps
  have hhead : (rec.take 5).length = 5 := List.length_take_of_le (Nat.le_of_succ_le hlen)
  have hrec := split_record hlen
  rw [hdrop] at hrec
  rw [hrec]
  cases part with
  | nil =>
    cases h
    exact .mk _ _ [] hhead hcount hx .absent
  | cons n rest =>
    obtain ⟨⟨ys, rest'⟩, hpps, he⟩ := Option.map_eq_some_iff.1 h
    cases he
    obtain ⟨hn, hy, rfl⟩ := PrefixCode.decodeN_eq_some _ hpps
    exact .mk _ _ _ hhead hcount hx (.counted n rest' hn hy)

theorem parseAvcc_cases (d : FlvH264) (rec : List UInt8) :
    (rec.length < 7 ∧ parseAvcc d rec = (d, .error .shortRecord)) ∨
    (7 ≤ rec.length ∧ ∃ sps pps, ConfigRecord sps pps rec ∧ parseAvcc d rec =
      ({ spsPps := annexB (sps ++ pps), naluSizeLen := lengthSizeOf rec }, .ok ())) ∨
    (7 ≤ rec.length ∧ (¬∃ sps pps, ConfigRecord sps pps rec) ∧ ∃ e ≠ .indexOutOfBounds,
      parseAvcc d rec = ({ d with naluSizeLen := lengthSizeOf rec }, .error e)) := by
  by_cases hlen : rec.length < 7
  · exact .inl ⟨hlen, by rw [parseAvcc, if_pos hlen]⟩
  · have hge : 7 ≤ rec.length := Nat.le_of_not_lt hlen
    obtain ⟨hok, herr⟩ := parseAvcc_recordSets hge d
    rw [lengthSizeOf_eq] at hok herr
    right
    cases hsets : recordSets rec with
    | some p =>
      obtain ⟨sps, pps⟩ := p
      exact .inl ⟨hge, sps, pps, configRecord_of_recordSets (by omega) hsets, hok sps pps hsets⟩
    | none =>
      refine .inr ⟨hge, ?_, herr hsets⟩
      rintro ⟨sps, pps, hr⟩
      cases hsets.symm.trans (recordSets_of_configRecord hr)

theorem configRecord_unique (h : ConfigRecord sps pps rec) (h' : ConfigRecord sps' pps' rec) :
    sps = sps' ∧ pps = pps' := by
  have he := (recordSets_of_configRecord h).symm.trans (recordSets_of_configRecord h')
  simpa only [Option.some.injEq, Prod.mk.injEq] using he

/-- `parse_avcc` indexes within the record, accepts exactly the configuration records of seven bytes
or more, and takes their parameter sets, in order, and their length size. -/
theorem parse_avcc_exact (d : FlvH264) (rec : List UInt8) :
    (parseAvcc d rec).2 ≠ .error .indexOutOfBounds ∧
    ((parseAvcc d rec).2 = .ok () ↔ 7 ≤ rec.length ∧ ∃ sps pps, ConfigRecord sps pps rec) ∧
    ∀ sps pps, 7 ≤ rec.length → ConfigRecord sps pps rec →
      (parseAvcc d rec).1 =
        { spsPps := annexB (sps ++ pps), naluSizeLen := (rec.getD 4 0).toNat % 4 + 1 } := by
  obtain ⟨hlt, he⟩ | ⟨hge, sps, pps, hr, he⟩ | ⟨hge, hnone, e, hne, he⟩ := parseAvcc_cases d rec
  · rw [he]
    refine ⟨by simp, ?_, ?_⟩
    · simp [hlt]
    · intro sps pps hge _
      exact absurd hlt (Nat.not_lt.2 hge)
  · rw [he]
    refine ⟨by simp, ?_, ?_⟩
    · simp only [true_iff]
      exact ⟨hge, sps, pps, hr⟩
    · intro sps' pps' _ hr'
      obtain ⟨rfl, rfl⟩ := configRecord_unique hr hr'
      rfl
  · rw [he]
    refine ⟨by simpa using hne, ?_, ?_⟩
    · simp [hnone]
    · intro sps pps _ hr
      exact absurd ⟨sps, pps, hr⟩ hnone

/-- One SPS, and one PPS with a byte behind it. -/
def sampleRecord : List UInt8 := [1, 66, 0, 30, 255, 225, 0, 2, 103, 66, 1, 0, 1, 104, 0]

theorem sampleRecord_sets : ConfigRecord [[103, 66]] [[104]] sampleRecord := by
  have hx : ∀ x ∈ [[(103 : UInt8), 66]], x.length < 2 ^ 16 := by simp
  have hy : ∀ x ∈ [[(104 : UInt8)]], x.length < 2 ^ 16 := by simp
  exact .mk [1, 66, 0, 30, 255] 225 _ rfl rfl hx (.counted 1 [0] rfl hy)

theorem parse_avcc_exact_sample :
    (parseAvcc {} sampleRecord).1 =
      { spsPps := [0, 0, 0, 1, 103, 66, 0, 0, 0, 1, 104], naluSizeLen := 4 } :=
  (parse_avcc_exact {} sampleRecord).2.2 _ _ (by decide) sampleRecord_sets

/-- An error leaves the demuxer as it was just where the record is too short to be read, or asks for
the length size that is set, or there is no error since it parses. -/
theorem rejected_record_unchanged (d : FlvH264) (rec : List UInt8) :
    (∀ d' e, parseAvcc d rec = (d', .error e) → d' = d) ↔
      rec.length < 7 ∨ (rec.getD 4 0).toNat % 4 + 1 = d.naluSizeLen ∨
        ∃ sps pps, ConfigRecord sps pps rec := by
  obtain ⟨hlt, he⟩ | ⟨hge, sps, pps, hr, he⟩ | ⟨hge, hnone, e, hne, he⟩ := parseAvcc_cases d rec
  · rw [he]
    simp [hlt, eq_comm]
  · rw [he]
    simp only [Prod.mk.injEq, reduceCtorEq, and_false, false_implies, implies_true, true_iff]
    exact .inr (.inr ⟨sps, pps, hr⟩)
  · rw [he]
    constructor
    · intro h
      have hd := h _ e rfl
      exact .inr (.inl (congrArg FlvH264.naluSizeLen hd))
    · rintro (hlt | hsize | hr) d' e' hd
      · exact absurd hlt (Nat.not_lt.2 hge)
      · cases hd
        rw [lengthSizeOf, hsize]
      · exact absurd hr hnone

/-- A record that breaks off in its first SPS asks for a length size of one byte. -/
theorem rejected_record_changes :
    ¬∀ (d : FlvH264) (rec : List UInt8) (d' : FlvH264) (e : FlvError),
      parseAvcc d rec = (d', .error e) → d' = d := by
  intro h
  have hparse : parseAvcc {} [1, 66, 0, 30, 0, 225, 0] =
      ({ naluSizeLen := 1 }, .error .truncatedSps) := by decide
  exact absurd (h _ _ _ _ hparse) (by decide)

end DdrdeskHost
