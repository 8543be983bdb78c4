import DdrdeskHost.FlvTags
import DdrdeskHost.Lib.Separator

namespace DdrdeskHost
open Bytes
set_option autoImplicit true

/-- The source is these bodies, each behind its length, and then less than a length. -/
structure Blocks (k : Nat) (src : List UInt8) (bodies : List (List UInt8)) : Prop where
  sizes : ∀ b ∈ bodies, b.length < 256 ^ k
  bytes : ∃ rest, src = lengthPrefixed k bodies ++ rest ∧ rest.length < k

theorem nalsOf_eq_some {hk : 0 < k} : nalsOf k hk src = some bodies ↔ Blocks k src bodies := by
  rw [nalsOf]
  constructor
  · intro h
    obtain ⟨hlen, he⟩ := Option.ite_none_right_eq_some.1 h
    cases he
    obtain ⟨hsplit, hvalid, -⟩ := (blockCode k hk).decodeAll_spec src
    exact ⟨hvalid, _, hsplit, hlen⟩
  · rintro ⟨hsizes, rest, rfl, hlen⟩
    have hrest := (blockCode k hk).decodeAll_none (blockCode_decode_short hk hlen)
    have hall := (blockCode k hk).decodeAll_encodeAll_append hsizes rest
    rw [hrest, List.append_nil] at hall
    rw [lengthPrefixed_eq hk, hall, if_pos hlen]

theorem Blocks.pos (h : Blocks k src bodies) : 0 < k := by
  obtain ⟨rest, -, hlen⟩ := h.bytes
  omega

theorem Blocks.unique (h : Blocks k src xs) (h' : Blocks k src ys) : xs = ys := by
  have hxs : nalsOf k h.pos src = some xs := nalsOf_eq_some.2 h
  have hys : nalsOf k h.pos src = some ys := nalsOf_eq_some.2 h'
  exact Option.some.inj (hxs.symm.trans hys)

theorem avccToAnnexb_eq (hk : 0 < k) (hk4 : k ≤ 4) (src out : List UInt8) :
    avccToAnnexb src k out = annexbLoop k hk src out := by
  have hgood : ¬(k = 0 ∨ 4 < k) := by omega
  rw [avccToAnnexb, dif_neg hgood]

theorem avccToAnnexb_blocks (hk : 0 < k) (hk4 : k ≤ 4) (h : Blocks k src bodies)
    (out : List UInt8) : avccToAnnexb src k out = .ok (out ++ annexB (nonEmpty bodies)) := by
  rw [avccToAnnexb_eq hk hk4]
  exact (annexbLoop_nalsOf hk src out).1 bodies (nalsOf_eq_some.2 h)

theorem blocks_of_avccToAnnexb (h : avccToAnnexb src k out = .ok out') :
    0 < k ∧ k ≤ 4 ∧ ∃ bodies, Blocks k src bodies := by
  by_cases hbad : k = 0 ∨ 4 < k
  · rw [avccToAnnexb, dif_pos hbad] at h
    cases h
  · have hk : 0 < k := by omega
    have hk4 : k ≤ 4 := by omega
    rw [avccToAnnexb_eq hk hk4] at h
    cases hn : nalsOf k hk src with
    | some bodies => exact ⟨hk, hk4, bodies, nalsOf_eq_some.1 hn⟩
    | none =>
      obtain ⟨e, he⟩ := (annexbLoop_nalsOf hk src out).2 hn
      cases he.symm.trans h

theorem startCode_unbordered : Unbordered startCode := by decide

theorem annexB_eq_separated (xs : List (List UInt8)) : annexB xs = separated startCode xs := rfl

theorem annexB_inj (hx : ∀ x ∈ xs, ¬startCode <:+: x) (hy : ∀ y ∈ ys, ¬startCode <:+: y)
    (h : annexB xs = annexB ys) : xs = ys := by
  rw [annexB_eq_separated, annexB_eq_separated] at h
  exact startCode_unbordered.separated_inj (by decide) hx hy h

/-- The conversion takes blocks and nothing else, it appends the non-empty ones behind start codes,
and what it appends says which they were. -/
theorem avcc_to_annexb_exact (hk : 0 < k) (hk4 : k ≤ 4) (src out : List UInt8) :
    ((∃ out', avccToAnnexb src k out = .ok out') ↔ ∃ bodies, Blocks k src bodies) ∧
    (∀ bodies, Blocks k src bodies →
      avccToAnnexb src k out = .ok (out ++ annexB (nonEmpty bodies))) ∧
    ∀ k' src' out' bodies bodies' x, Blocks k src bodies → Blocks k' src' bodies' →
      (∀ b ∈ nonEmpty bodies, ¬startCode <:+: b) → (∀ b ∈ nonEmpty bodies', ¬startCode <:+: b) →
      avccToAnnexb src k out = .ok (out ++ x) → avccToAnnexb src' k' out' = .ok (out' ++ x) →
      nonEmpty bodies = nonEmpty bodies' := by
  refine ⟨⟨?_, ?_⟩, ?_, ?_⟩
  · rintro ⟨out', h⟩
    exact (blocks_of_avccToAnnexb h).2.2
  · rintro ⟨bodies, h⟩
    exact ⟨_, avccToAnnexb_blocks hk hk4 h out⟩
  · intro bodies h
    exact avccToAnnexb_blocks hk hk4 h out
  · intro k' src' out' bodies bodies' x hb hb' hs hs' he he'
    obtain ⟨hk', hk4', -⟩ := blocks_of_avccToAnnexb he'
    rw [avccToAnnexb_blocks hk hk4 hb] at he
    rw [avccToAnnexb_blocks hk' hk4' hb'] at he'
    have hx := List.append_cancel_left (Except.ok.inj he)
    have hx' := List.append_cancel_left (Except.ok.inj he')
    exact annexB_inj hs hs' (hx.trans hx'.symm)

/-- A body that ends in a zero, an empty one, another, and a byte that is left over. -/
theorem avcc_to_annexb_exact_zeros :
    avccToAnnexb [0, 2, 0x41, 0, 0, 0, 0, 1, 0x68, 9] 2 [] =
      .ok [0, 0, 0, 1, 0x41, 0, 0, 0, 0, 1, 0x68] :=
  (avcc_to_annexb_exact (by decide) (by decide) _ []).2.1 [[0x41, 0], [], [0x68]]
    ⟨by decide, [9], by decide, by decide⟩

end DdrdeskHost
