import Mathlib.Algebra.Ring.Int.Defs
import Mathlib.Data.Int.Order.Basic

namespace I32
set_option autoImplicit true

def InRange (n : Int) : Prop := -2 ^ 31 ≤ n ∧ n < 2 ^ 31

instance (n : Int) : Decidable (InRange n) := inferInstanceAs (Decidable (_ ∧ _))

/-- The value of an operation with this exact result: where it does not fit, a build with overflow
checks panics and one without them wraps around. -/
def arith (checks : Bool) (n : Int) : Option Int32 :=
  if checks ∧ ¬InRange n then none else some (.ofInt n)

def add (checks : Bool) (a b : Int32) : Option Int32 := arith checks (a.toInt + b.toInt)

def mul (checks : Bool) (a b : Int32) : Option Int32 := arith checks (a.toInt * b.toInt)

def saturatingSub (a b : Int32) : Int32 := .ofIntClamp (a.toInt - b.toInt)

/-- `Ord::clamp`, which panics when the bounds are out of order. -/
def clamp (v lo hi : Int32) : Option Int32 :=
  if hi < lo then none else some (if v < lo then lo else if hi < v then hi else v)

theorem inRange_toInt (a : Int32) : InRange a.toInt := ⟨a.le_toInt, a.toInt_lt⟩

theorem toInt_ofInt (h : InRange n) : (Int32.ofInt n).toInt = n :=
  Int32.toInt_ofInt_of_le h.1 h.2

theorem arith_of_inRange (h : InRange n) (checks : Bool) : arith checks n = some (.ofInt n) :=
  if_neg fun hc => hc.2 h

theorem arith_checked (h : ¬InRange n) : arith true n = none := if_pos ⟨rfl, h⟩

theorem toInt_saturatingSub (h : InRange (a.toInt - b.toInt)) :
    (saturatingSub a b).toInt = a.toInt - b.toInt :=
  Int32.toInt_ofIntClamp h.1 (Int.le_of_lt_add_one h.2)

theorem clamp_eq (h : lo.toInt ≤ hi.toInt) (v : Int32) :
    ∃ r, clamp v lo hi = some r ∧ r.toInt = max lo.toInt (min v.toInt hi.toInt) := by
  have hle : ¬hi < lo := by
    rw [Int32.lt_iff_toInt_lt]
    omega
  refine ⟨_, if_neg hle, ?_⟩
  simp only [Int32.lt_iff_toInt_lt]
  split
  · omega
  · split
    · omega
    · omega

end I32
