import Mathlib.Algebra.Group.Nat.Defs
import Mathlib.Data.Nat.Basic
import Mathlib.Data.List.Basic

namespace Bytes
set_option autoImplicit true

/-- The number that big-endian bytes spell. -/
def ofBE : List UInt8 → Nat
  | [] => 0
  | b :: bs => b.toNat * 256 ^ bs.length + ofBE bs

/-- The `n` low bytes of a number, most significant first. -/
def toBE : Nat → Nat → List UInt8
  | 0, _ => []
  | n + 1, v => UInt8.ofNat (v / 256 ^ n) :: toBE n (v % 256 ^ n)

@[simp] theorem length_toBE (n v : Nat) : (toBE n v).length = n := by
  induction n generalizing v with
  | zero => rfl
  | succ n ih => simp only [toBE, List.length_cons, ih]

theorem ofBE_lt (bs : List UInt8) : ofBE bs < 256 ^ bs.length := by
  induction bs with
  | nil => exact Nat.one_pos
  | cons b bs ih =>
    have hb : b.toNat + 1 ≤ 256 := b.toNat_lt
    calc
      b.toNat * 256 ^ bs.length + ofBE bs < (b.toNat + 1) * 256 ^ bs.length := by
        rw [Nat.succ_mul]
        omega
      _ ≤ 256 * 256 ^ bs.length := Nat.mul_le_mul_right _ hb
      _ = 256 ^ (b :: bs).length := by rw [List.length_cons, Nat.pow_succ, Nat.mul_comm]

theorem ofBE_toBE_mod (n v : Nat) : ofBE (toBE n v) = v % 256 ^ n := by
  induction n generalizing v with
  | zero => simp only [toBE, ofBE, Nat.pow_zero, Nat.mod_one]
  | succ n ih =>
    have hb : (UInt8.ofNat (v / 256 ^ n)).toNat = v / 256 ^ n % 256 := UInt8.toNat_ofNat'
    simp only [toBE, ofBE, hb, ih, length_toBE, Nat.mod_mod]
    rw [Nat.mod_pow_succ, Nat.mul_comm (256 ^ n), Nat.add_comm]

theorem ofBE_toBE (h : v < 256 ^ n) : ofBE (toBE n v) = v :=
  (ofBE_toBE_mod n v).trans (Nat.mod_eq_of_lt h)

theorem toBE_ofBE (bs : List UInt8) : toBE bs.length (ofBE bs) = bs := by
  induction bs with
  | nil => rfl
  | cons b bs ih =>
    have hlt := ofBE_lt bs
    have hpos : 0 < 256 ^ bs.length := Nat.pow_pos (by decide)
    have hdiv : (b.toNat * 256 ^ bs.length + ofBE bs) / 256 ^ bs.length = b.toNat := by
      rw [Nat.mul_comm, Nat.mul_add_div hpos, Nat.div_eq_of_lt hlt, Nat.add_zero]
    have hmod : (b.toNat * 256 ^ bs.length + ofBE bs) % 256 ^ bs.length = ofBE bs := by
      rw [Nat.mul_comm, Nat.mul_add_mod, Nat.mod_eq_of_lt hlt]
    simp only [List.length_cons, toBE, ofBE, hdiv, hmod, ih, UInt8.ofNat_toNat]

/-- Take exactly `n` items from the front, as `read_exact` does; `none` at an early end. -/
def readExact (n : Nat) (s : List α) : Option (List α × List α) :=
  if n ≤ s.length then some (s.take n, s.drop n) else none

theorem readExact_append (h : a.length = n) : readExact n (a ++ s) = some (a, s) := by
  subst h
  simp only [readExact, List.length_append, Nat.le_add_right, ↓reduceIte, List.take_left,
    List.drop_left]

theorem readExact_eq_some (h : readExact n s = some (a, r)) : s = a ++ r ∧ a.length = n := by
  unfold readExact at h
  split at h
  · next hle =>
    cases h
    exact ⟨(List.take_append_drop n s).symm, List.length_take_of_le hle⟩
  · cases h

theorem readExact_eq_none : readExact n s = none ↔ s.length < n := by
  unfold readExact
  split
  · next hle => simpa only [reduceCtorEq, false_iff, not_lt] using hle
  · next hgt => simpa only [true_iff] using Nat.lt_of_not_le hgt

end Bytes
