import DdrdeskHost.Flv
import Mathlib.Tactic.Ring

namespace DdrdeskHost
open Bytes
set_option autoImplicit true

/-- Byte strings, each behind its length in `k` big-endian bytes. -/
def lengthPrefixed (k : Nat) (xs : List (List UInt8)) : List UInt8 :=
  xs.flatMap fun x => toBE k x.length ++ x

/-- Byte strings, each behind a start code. -/
def annexB (xs : List (List UInt8)) : List UInt8 :=
  xs.flatMap fun x => startCode ++ x

@[simp] theorem lengthPrefixed_cons (k : Nat) (x : List UInt8) (xs : List (List UInt8)) :
    lengthPrefixed k (x :: xs) = toBE k x.length ++ (x ++ lengthPrefixed k xs) := by
  simp only [lengthPrefixed, List.flatMap_cons, List.append_assoc]

@[simp] theorem annexB_nil : annexB [] = [] := rfl

@[simp] theorem annexB_cons (x : List UInt8) (xs : List (List UInt8)) :
    annexB (x :: xs) = startCode ++ x ++ annexB xs := rfl

@[simp] theorem annexB_append (xs ys : List (List UInt8)) :
    annexB (xs ++ ys) = annexB xs ++ annexB ys := List.flatMap_append

theorem four_mul_length_le (xs : List (List UInt8)) : 4 * xs.length ≤ (annexB xs).length := by
  induction xs with
  | nil => exact Nat.le_refl 0
  | cons x xs ih =>
    simp only [annexB_cons, startCode, List.length_append, List.length_cons, List.length_nil]
    omega

theorem annexB_eq_nil : annexB xs = [] ↔ xs = [] := by
  cases xs with
  | nil => exact ⟨fun _ => rfl, fun _ => rfl⟩
  | cons x xs => simp [annexB_cons, startCode]

theorem byteAt_append (p : List UInt8) (b : UInt8) (s : List UInt8) :
    byteAt (p ++ b :: s) p.length = .ok b := by
  simp only [byteAt, List.getElem?_append_right (Nat.le_refl _), Nat.sub_self,
    List.getElem?_cons_zero]

theorem slice_append (p x s : List UInt8) : slice (p ++ (x ++ s)) p.length x.length = .ok x := by
  have hle : p.length + x.length ≤ (p ++ (x ++ s)).length := by
    simp only [List.length_append]
    omega
  simp only [slice, hle, ↓reduceIte, List.drop_left, List.take_left]

theorem naluLen_eq_ofBE (s : List UInt8) : naluLen s = ofBE s := by
  have hfold (n : Nat) : s.foldl (fun len b => len <<< 8 ||| b.toNat) n =
      n * 256 ^ s.length + ofBE s := by
    induction s generalizing n with
    | nil => simp only [List.foldl_nil, List.length_nil, ofBE, Nat.pow_zero, Nat.mul_one,
        Nat.add_zero]
    | cons b s ih =>
      have hb : n <<< 8 ||| b.toNat = n * 256 + b.toNat := by
        rw [← Nat.shiftLeft_add_eq_or_of_lt (i := 8) b.toNat_lt, Nat.shiftLeft_eq]
      rw [List.foldl_cons, ih, hb, ofBE, List.length_cons, Nat.pow_succ]
      ring
  simpa only [naluLen, Nat.zero_mul, Nat.zero_add] using hfold 0

theorem parseSets_lengthPrefixed (hx : ∀ x ∈ xs, x.length < 256 ^ 2) (p out s : List UInt8) :
    parseSets t b (p ++ (lengthPrefixed 2 xs ++ s)) xs.length p.length out =
      .ok (p.length + (lengthPrefixed 2 xs).length, out ++ annexB xs) := by
  induction xs generalizing p out with
  | nil =>
    simp only [lengthPrefixed, annexB, List.flatMap_nil, List.length_nil, Nat.add_zero,
      List.append_nil, parseSets]
  | cons x xs ih =>
    have hlen : ofBE (toBE 2 x.length) = x.length := ofBE_toBE (hx x List.mem_cons_self)
    obtain ⟨a, c, hac⟩ : ∃ a c, toBE 2 x.length = [a, c] := ⟨_, _, rfl⟩
    rw [hac] at hlen
    have hrec : p ++ (lengthPrefixed 2 (x :: xs) ++ s) =
        p ++ a :: c :: (x ++ (lengthPrefixed 2 xs ++ s)) := by
      simp only [lengthPrefixed_cons, hac, List.append_assoc, List.cons_append, List.nil_append]
    have ha := byteAt_append p a (c :: (x ++ (lengthPrefixed 2 xs ++ s)))
    have hc := byteAt_append (p ++ [a]) c (x ++ (lengthPrefixed 2 xs ++ s))
    have hbody := slice_append (p ++ [a, c]) x (lengthPrefixed 2 xs ++ s)
    have hnext := ih (fun y hy => hx y (List.mem_cons_of_mem x hy)) (p ++ [a, c] ++ x)
      (out ++ (startCode ++ x))
    have hi : (p ++ [a, c] ++ x).length = p.length + 2 + x.length := by
      simp only [List.length_append, List.length_cons, List.length_nil]
    rw [hi] at hnext
    simp only [List.length_append, List.length_cons, List.length_nil, Nat.zero_add,
      Nat.reduceAdd, List.append_assoc, List.cons_append, List.nil_append] at hc hbody hnext
    have h₁ : ¬(p ++ a :: c :: (x ++ (lengthPrefixed 2 xs ++ s))).length < p.length + 2 := by
      simp only [List.length_append, List.length_cons]
      omega
    have h₂ : ¬(p ++ a :: c :: (x ++ (lengthPrefixed 2 xs ++ s))).length <
        p.length + 2 + x.length := by
      simp only [List.length_append, List.length_cons]
      omega
    rw [hrec]
    simp only [List.length_cons, parseSets, h₁, h₂, ha, hc, hbody, hlen, ↓reduceIte, bind,
      Except.bind, hnext]
    simp only [lengthPrefixed_cons, hac, annexB_cons, List.length_append, List.length_cons,
      List.length_nil, List.append_assoc]
    congr 2
    omega

/-- A decoder configuration record as a muxer writes it. -/
structure AvcConfig where
  version : UInt8
  profile : UInt8
  compat : UInt8
  level : UInt8
  lengthSize : Nat
  sps : List (List UInt8)
  pps : List (List UInt8)
  lengthSize_pos : 0 < lengthSize
  lengthSize_le : lengthSize ≤ 4
  sps_count : sps.length ≤ 31
  pps_count : pps.length ≤ 255
  sps_size : ∀ x ∈ sps, x.length ≤ 65535
  pps_size : ∀ x ∈ pps, x.length ≤ 65535

namespace AvcConfig

def head (c : AvcConfig) : List UInt8 :=
  [c.version, c.profile, c.compat, c.level, UInt8.ofNat (0xfc + (c.lengthSize - 1)),
    UInt8.ofNat (0xe0 + c.sps.length)]

def record (c : AvcConfig) : List UInt8 :=
  c.head ++ (lengthPrefixed 2 c.sps ++ UInt8.ofNat c.pps.length :: lengthPrefixed 2 c.pps)

/-- The state that the record leaves behind. -/
def demuxer (c : AvcConfig) : FlvH264 :=
  { spsPps := annexB (c.sps ++ c.pps), naluSizeLen := c.lengthSize }

theorem lengthSize_bits (c : AvcConfig) :
    (UInt8.ofNat (0xfc + (c.lengthSize - 1)) &&& 3).toNat + 1 = c.lengthSize := by
  have hbits : ∀ k < 4, (UInt8.ofNat (0xfc + k) &&& 3).toNat = k := by decide
  have hpos := c.lengthSize_pos
  rw [hbits (c.lengthSize - 1) (by have := c.lengthSize_le; omega)]
  omega

theorem sps_bits (c : AvcConfig) :
    (UInt8.ofNat (0xe0 + c.sps.length) &&& 0x1f).toNat = c.sps.length := by
  have hbits : ∀ n < 32, (UInt8.ofNat (0xe0 + n) &&& 0x1f).toNat = n := by decide
  exact hbits c.sps.length (Nat.lt_succ_of_le c.sps_count)

theorem parameterSets_record (c : AvcConfig) :
    parameterSets c.record = .ok (annexB (c.sps ++ c.pps)) := by
  have hs : ∀ x ∈ c.sps, x.length < 256 ^ 2 := fun x hx => Nat.lt_succ_of_le (c.sps_size x hx)
  have hp : ∀ x ∈ c.pps, x.length < 256 ^ 2 := fun x hx => Nat.lt_succ_of_le (c.pps_size x hx)
  have hnum : (UInt8.ofNat c.pps.length).toNat = c.pps.length :=
    UInt8.toNat_ofNat_of_lt' (Nat.lt_succ_of_le c.pps_count)
  have h5 : byteAt c.record 5 = .ok (UInt8.ofNat (0xe0 + c.sps.length)) := rfl
  have hsps := parseSets_lengthPrefixed (t := .truncatedSps) (b := .truncatedSpsBody) hs c.head []
    (UInt8.ofNat c.pps.length :: lengthPrefixed 2 c.pps)
  have hat := byteAt_append (c.head ++ lengthPrefixed 2 c.sps) (UInt8.ofNat c.pps.length)
    (lengthPrefixed 2 c.pps)
  have hpps := parseSets_lengthPrefixed (t := .truncatedPps) (b := .truncatedPpsBody) hp
    (c.head ++ lengthPrefixed 2 c.sps ++ [UInt8.ofNat c.pps.length]) (annexB c.sps) []
  have hhead : c.head.length = 6 := rfl
  simp only [List.length_append, List.length_singleton, List.append_nil, List.append_assoc,
    List.cons_append, List.nil_append, hhead] at hsps hat hpps
  have hlt : ¬c.record.length ≤ 6 + (lengthPrefixed 2 c.sps).length := by
    simp only [record, List.length_append, List.length_cons, hhead]
    omega
  have hat' : byteAt c.record (6 + (lengthPrefixed 2 c.sps).length) =
    .ok (UInt8.ofNat c.pps.length) := hat
  change parseSets _ _ c.record _ _ _ = _ at hsps
  rw [← Nat.add_assoc] at hpps
  change parseSets _ _ c.record _ _ _ = _ at hpps
  simp only [parameterSets, h5, sps_bits, hsps, hlt, hat', hnum, hpps, ↓reduceIte, bind,
    Except.bind, pure, Except.pure, annexB_append]

theorem parseAvcc_record (c : AvcConfig) (d : FlvH264) :
    parseAvcc d c.record = (c.demuxer, .ok ()) := by
  have hlen : ¬c.record.length < 7 := by
    simp only [record, head, List.length_append, List.length_cons, List.length_nil]
    omega
  have h4 : byteAt c.record 4 = .ok (UInt8.ofNat (0xfc + (c.lengthSize - 1))) := rfl
  simp only [parseAvcc, hlen, ↓reduceIte, h4, parameterSets_record, lengthSize_bits, demuxer]

end AvcConfig

/-- The non-empty NAL units of a tag, which are the ones that reach the access unit. -/
def nonEmpty (nals : List (List UInt8)) : List (List UInt8) :=
  nals.filter fun n => !n.isEmpty

theorem annexbLoop_append (hk : 0 < k) (hn : ∀ n ∈ nals, n.length < 256 ^ k)
    (rest out : List UInt8) :
    annexbLoop k hk (lengthPrefixed k nals ++ rest) out =
      annexbLoop k hk rest (out ++ annexB (nonEmpty nals)) := by
  induction nals generalizing out with
  | nil =>
    simp only [lengthPrefixed, List.flatMap_nil, List.nil_append, nonEmpty, List.filter_nil,
      annexB, List.append_nil]
  | cons n nals ih =>
    have hlen : naluLen (toBE k n.length) = n.length := by
      rw [naluLen_eq_ofBE, ofBE_toBE (hn n List.mem_cons_self)]
    have ih := ih fun m hm => hn m (List.mem_cons_of_mem n hm)
    have hlt : ¬(toBE k n.length ++ (n ++ (lengthPrefixed k nals ++ rest))).length < k := by
      rw [List.length_append, length_toBE]
      omega
    have hle : ¬(n ++ (lengthPrefixed k nals ++ rest)).length < n.length := by
      rw [List.length_append]
      omega
    rw [annexbLoop]
    simp only [lengthPrefixed_cons, List.append_assoc, hlt, ↓reduceIte,
      List.take_left' (length_toBE k _), List.drop_left' (length_toBE k _), hlen, hle,
      List.take_left, List.drop_left, ih]
    cases n with
    | nil =>
      simp only [List.length_nil, ↓reduceIte, List.nil_append, ih]
      rfl
    | cons b n =>
      simp only [List.length_cons, Nat.add_eq_zero_iff, one_ne_zero, and_false, ↓reduceIte,
        nonEmpty, List.filter_cons, List.isEmpty_cons, Bool.not_false, annexB_cons,
        List.append_assoc]

theorem annexbLoop_short (hk : 0 < k) (h : rest.length < k) (out : List UInt8) :
    annexbLoop k hk rest out = .ok out := by
  rw [annexbLoop, if_pos h]

theorem annexbLoop_lengthPrefixed (hk : 0 < k) (hn : ∀ n ∈ nals, n.length < 256 ^ k)
    (out : List UInt8) :
    annexbLoop k hk (lengthPrefixed k nals) out = .ok (out ++ annexB (nonEmpty nals)) := by
  have h := annexbLoop_append hk hn [] out
  have hnil : ([] : List UInt8).length < k := hk
  rwa [List.append_nil, annexbLoop_short hk hnil] at h

end DdrdeskHost
