import DdrdeskHost.Keyboard
import DdrdeskHost.Lib.I32
import Mathlib.Data.Rat.Floor

namespace DdrdeskHost
open I32
set_option autoImplicit true

inductive RelativeAxisType
  | relX | relY | relWheel | relHwheel | relWheelHiRes | relHwheelHiRes
  deriving DecidableEq

/-- An event of the virtual mouse: it moves, a button goes down or up, or a report ends. -/
inductive MouseEvent
  | rel (axis : RelativeAxisType) (v : Int32)
  | key (k : Key) (down : Bool)
  | syn
  deriving DecidableEq

/-- Where the injector takes the pointer to be, and the screen it moves on. -/
structure Pointer where
  x : Int32
  y : Int32
  screenW : Int32
  screenH : Int32
  deriving DecidableEq

namespace Injector

/-- The line of `move_rel` for one coordinate. -/
def moveAxis (checks : Bool) (x d screen : Int32) : Option Int32 :=
  (add checks x d).bind fun v => clamp v 0 (saturatingSub screen 1)

/-- `none` is a panic; every event is taken to be accepted. -/
def moveRel (checks : Bool) (p : Pointer) (dx dy : Int32) : Option (Pointer × List MouseEvent) :=
  if dx = 0 ∧ dy = 0 then some (p, [])
  else do
    let x ← moveAxis checks p.x dx p.screenW
    let y ← moveAxis checks p.y dy p.screenH
    some ({ p with x := x, y := y }, (if dx = 0 then [] else [.rel .relX dx]) ++
      (if dy = 0 then [] else [.rel .relY dy]) ++ [.syn])

def button (which : String) (down : Bool) : List MouseEvent :=
  let key : Key := match which with
    | "left" => .btnLeft
    | "right" => .btnRight
    | "middle" => .btnMiddle
    | _ => .btnLeft
  [.key key down, .syn]

/-- The events of `wheel` for one axis. -/
def wheelAxis (checks : Bool) (hiRes axis : RelativeAxisType) (d : Int32) :
    Option (List MouseEvent) :=
  if d = 0 then some [] else (mul checks d 120).map fun v => [.rel hiRes v, .rel axis d]

def wheel (checks : Bool) (dx dy : Int32) : Option (List MouseEvent) := do
  let vertical ← wheelAxis checks .relWheelHiRes .relWheel dy
  let horizontal ← wheelAxis checks .relHwheelHiRes .relHwheel dx
  let evs := vertical ++ horizontal
  some (if evs = [] then [] else evs ++ [.syn])

end Injector

/-- `round() as i32`: half a unit goes away from zero, and the cast saturates. -/
def roundI32 (q : ℚ) : Int32 :=
  .ofIntClamp (if 0 ≤ q then ⌊q + 1 / 2⌋ else ⌈q - 1 / 2⌉)

/-- What `apply_input` does with the pointer and the mouse; the keyboard is another device. -/
def applyInput (checks : Bool) (p : Pointer) (ev : InputEvent) (pointerScale : ℚ) :
    Option (Pointer × List MouseEvent) :=
  match ev with
  | .move dx dy =>
    Injector.moveRel checks p (roundI32 (dx * pointerScale)) (roundI32 (dy * pointerScale))
  | .btn b d => some (p, Injector.button b d)
  | .wheel dx dy => (Injector.wheel checks (roundI32 dx) (roundI32 dy)).map fun evs => (p, evs)
  | .key _ _ | .text _ => some (p, [])

def OnScreen (p : Pointer) : Prop :=
  (0 ≤ p.x.toInt ∧ p.x.toInt < p.screenW.toInt) ∧ 0 ≤ p.y.toInt ∧ p.y.toInt < p.screenH.toInt

/-- In every build, the pointer comes to the sums of integers, clamped to the screen. -/
def MoveExact (p : Pointer) (dx dy : Int32) : Prop :=
  ∀ checks, ∃ p' evs, Injector.moveRel checks p dx dy = some (p', evs) ∧
    p'.x.toInt = max 0 (min (p.x.toInt + dx.toInt) (p.screenW.toInt - 1)) ∧
    p'.y.toInt = max 0 (min (p.y.toInt + dy.toInt) (p.screenH.toInt - 1))

/-- An axis that turns comes with its notches and with 120 times as many hi-res units. -/
def Notched (hiRes axis : RelativeAxisType) (d : Int32) (evs : List MouseEvent) : Prop :=
  d ≠ 0 → .rel axis d ∈ evs ∧ (∃ v, .rel hiRes v ∈ evs) ∧
    ∀ v, .rel hiRes v ∈ evs → v.toInt = 120 * d.toInt

def WheelExact (dx dy : Int32) : Prop :=
  ∀ checks, ∃ evs, Injector.wheel checks dx dy = some evs ∧
    Notched .relWheelHiRes .relWheel dy evs ∧ Notched .relHwheelHiRes .relHwheel dx evs

namespace Injector

theorem clamp_screen (h : 0 < screen.toInt) (v : Int32) :
    ∃ r, clamp v 0 (saturatingSub screen 1) = some r ∧
      r.toInt = max 0 (min v.toInt (screen.toInt - 1)) := by
  have hone : (1 : Int32).toInt = 1 := rfl
  have hzero : (0 : Int32).toInt = 0 := rfl
  have hrange : InRange (screen.toInt - (1 : Int32).toInt) := by
    have hlt := screen.toInt_lt
    rw [hone, InRange]
    omega
  have hlast := toInt_saturatingSub hrange
  rw [hone] at hlast
  have hle : (0 : Int32).toInt ≤ (saturatingSub screen 1).toInt := by
    rw [hzero, hlast]
    omega
  obtain ⟨r, hr, hval⟩ := clamp_eq hle v
  rw [hzero, hlast] at hval
  exact ⟨r, hr, hval⟩

theorem moveAxis_exact (hs : 0 < screen.toInt) :
    (∀ checks, ∃ r, moveAxis checks x d screen = some r ∧
      r.toInt = max 0 (min (x.toInt + d.toInt) (screen.toInt - 1))) ↔
        InRange (x.toInt + d.toInt) := by
  constructor
  · intro h
    obtain ⟨r, hr, -⟩ := h true
    obtain ⟨v, hv, -⟩ := Option.bind_eq_some_iff.1 hr
    by_contra hrange
    rw [add, arith_checked hrange] at hv
    cases hv
  · intro hrange checks
    obtain ⟨r, hr, hval⟩ := clamp_screen hs (.ofInt (x.toInt + d.toInt))
    rw [toInt_ofInt hrange] at hval
    refine ⟨r, ?_, hval⟩
    rw [moveAxis, add, arith_of_inRange hrange, Option.bind_some, hr]

theorem moveRel_still (checks : Bool) (p : Pointer) : moveRel checks p 0 0 = some (p, []) :=
  if_pos ⟨rfl, rfl⟩

theorem moveRel_eq_some (h : ¬(dx = 0 ∧ dy = 0)) :
    moveRel checks p dx dy = some (p', evs) ↔
      moveAxis checks p.x dx p.screenW = some p'.x ∧ moveAxis checks p.y dy p.screenH = some p'.y ∧
        (p'.screenW = p.screenW ∧ p'.screenH = p.screenH) ∧
        evs = (if dx = 0 then [] else [.rel .relX dx]) ++
          (if dy = 0 then [] else [.rel .relY dy]) ++ [.syn] := by
  rw [moveRel, if_neg h]
  constructor
  · intro he
    obtain ⟨x, hx, he⟩ := Option.bind_eq_some_iff.1 he
    obtain ⟨y, hy, he⟩ := Option.bind_eq_some_iff.1 he
    cases he
    exact ⟨hx, hy, ⟨rfl, rfl⟩, rfl⟩
  · rintro ⟨hx, hy, ⟨hw, hh⟩, rfl⟩
    obtain ⟨x, y, screenW, screenH⟩ := p'
    cases hw
    cases hh
    simp [hx, hy]

theorem wheelAxis_of_inRange (h : InRange (120 * d.toInt)) (checks : Bool)
    (hiRes axis : RelativeAxisType) :
    wheelAxis checks hiRes axis d =
      some (if d = 0 then [] else [.rel hiRes (.ofInt (120 * d.toInt)), .rel axis d]) := by
  have hval : d.toInt * (120 : Int32).toInt = 120 * d.toInt := Int.mul_comm _ _
  rw [wheelAxis, mul, hval, arith_of_inRange h]
  split
  · rfl
  · rfl

theorem inRange_of_wheelAxis (h : wheelAxis true hiRes axis d = some evs) :
    InRange (120 * d.toInt) := by
  have hval : d.toInt * (120 : Int32).toInt = 120 * d.toInt := Int.mul_comm _ _
  rw [wheelAxis, mul, hval] at h
  split at h
  · next hd =>
    subst hd
    decide
  · by_contra hrange
    rw [arith_checked hrange] at h
    cases h

end Injector

theorem OnScreen.pos (h : OnScreen p) : 0 < p.screenW.toInt ∧ 0 < p.screenH.toInt :=
  ⟨h.1.1.trans_lt h.1.2, h.2.1.trans_lt h.2.2⟩

theorem inRange_add {x : Int32} (hx : 0 ≤ x.toInt) (d : Int32) :
    InRange (x.toInt + d.toInt) ↔ x.toInt + d.toInt < 2 ^ 31 := by
  have hle := d.le_toInt
  rw [InRange]
  omega

theorem moveExact_iff (h : OnScreen p) :
    MoveExact p dx dy ↔ p.x.toInt + dx.toInt < 2 ^ 31 ∧ p.y.toInt + dy.toInt < 2 ^ 31 := by
  obtain ⟨hw, hh⟩ := h.pos
  rw [← inRange_add h.1.1, ← inRange_add h.2.1]
  by_cases hstill : dx = 0 ∧ dy = 0
  · obtain ⟨rfl, rfl⟩ := hstill
    have hzero : (0 : Int32).toInt = 0 := rfl
    obtain ⟨⟨hx, hxw⟩, hy, hyh⟩ := h
    rw [hzero, Int.add_zero, Int.add_zero]
    refine iff_of_true ?_ ⟨inRange_toInt _, inRange_toInt _⟩
    intro checks
    refine ⟨p, [], Injector.moveRel_still checks p, ?_, ?_⟩
    · rw [hzero]
      omega
    · rw [hzero]
      omega
  · rw [← Injector.moveAxis_exact hw, ← Injector.moveAxis_exact hh]
    constructor
    · intro hmove
      constructor
      · intro checks
        obtain ⟨p', evs, he, hx, -⟩ := hmove checks
        exact ⟨p'.x, ((Injector.moveRel_eq_some hstill).1 he).1, hx⟩
      · intro checks
        obtain ⟨p', evs, he, -, hy⟩ := hmove checks
        exact ⟨p'.y, ((Injector.moveRel_eq_some hstill).1 he).2.1, hy⟩
    · rintro ⟨hxs, hys⟩ checks
      obtain ⟨x, hx, hxval⟩ := hxs checks
      obtain ⟨y, hy, hyval⟩ := hys checks
      exact ⟨{ p with x := x, y := y }, _,
        (Injector.moveRel_eq_some hstill).2 ⟨hx, hy, ⟨rfl, rfl⟩, rfl⟩, hxval, hyval⟩

theorem wheel_of_inRange (hx : InRange (120 * dx.toInt)) (hy : InRange (120 * dy.toInt))
    (checks : Bool) :
    ∃ evs, Injector.wheel checks dx dy = some evs ∧
      Notched .relWheelHiRes .relWheel dy evs ∧ Notched .relHwheelHiRes .relHwheel dx evs := by
  have hxval := toInt_ofInt hx
  have hyval := toInt_ofInt hy
  rw [Injector.wheel, Injector.wheelAxis_of_inRange hy, Injector.wheelAxis_of_inRange hx]
  generalize Int32.ofInt (120 * dx.toInt) = vx at hxval ⊢
  generalize Int32.ofInt (120 * dy.toInt) = vy at hyval ⊢
  refine ⟨_, rfl, ?_, ?_⟩
  · intro hd
    simp [hd, hyval]
  · intro hd
    simp [hd, hxval]

theorem wheelExact_iff :
    WheelExact dx dy ↔ InRange (120 * dx.toInt) ∧ InRange (120 * dy.toInt) := by
  constructor
  · intro h
    obtain ⟨evs, he, -⟩ := h true
    obtain ⟨vertical, hv, he⟩ := Option.bind_eq_some_iff.1 he
    obtain ⟨horizontal, hh, -⟩ := Option.bind_eq_some_iff.1 he
    exact ⟨Injector.inRange_of_wheelAxis hh, Injector.inRange_of_wheelAxis hv⟩
  · rintro ⟨hx, hy⟩ checks
    exact wheel_of_inRange hx hy checks

theorem inRange_notches (d : Int) : InRange (120 * d) ↔ |d| ≤ 17895697 := by
  rw [abs_le, InRange]
  omega

/-- A motion is exact just where neither sum goes beyond the greatest `i32`, and a turn of the wheel
just where it is at most 17895697 notches, either way. -/
theorem input_arithmetic_exact (p : Pointer) (h : OnScreen p) (dx dy : Int32) :
    (MoveExact p dx dy ↔
      p.x.toInt + dx.toInt < 2 ^ 31 ∧ p.y.toInt + dy.toInt < 2 ^ 31) ∧
    (WheelExact dx dy ↔ |dx.toInt| ≤ 17895697 ∧ |dy.toInt| ≤ 17895697) := by
  rw [wheelExact_iff, inRange_notches, inRange_notches]
  exact ⟨moveExact_iff h, Iff.rfl⟩

/-- A pointer in the middle of its screen. -/
def middle : Pointer := { x := 960, y := 540, screenW := 1920, screenH := 1080 }

theorem onScreen_middle : OnScreen middle := by
  unfold OnScreen
  decide

theorem input_arithmetic_exact_middle :
    MoveExact middle (-2147483648) 1000 ∧ WheelExact 0 (-17895697) := by
  obtain ⟨hmove, -⟩ := input_arithmetic_exact middle onScreen_middle (-2147483648) 1000
  obtain ⟨-, hwheel⟩ := input_arithmetic_exact middle onScreen_middle 0 (-17895697)
  exact ⟨hmove.2 (by decide), hwheel.2 (by decide)⟩

/-- Far to the right the sum wraps around, and the pointer goes to the left edge. -/
theorem input_arithmetic_overflows :
    OnScreen middle ∧ ¬MoveExact middle 2147483647 0 ∧ ¬WheelExact 0 17895698 := by
  refine ⟨onScreen_middle, ?_, ?_⟩
  · intro h
    obtain ⟨p', evs, he, hx, -⟩ := h false
    have hmove : Injector.moveRel false middle 2147483647 0 =
        some ({ middle with x := 0 }, [.rel .relX 2147483647, .syn]) := by decide
    cases hmove.symm.trans he
    exact absurd hx (by decide)
  · intro h
    obtain ⟨-, hrange⟩ := wheelExact_iff.1 h
    exact absurd hrange (by decide)

end DdrdeskHost
