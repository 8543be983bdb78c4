import DdrdeskHost.Display
import Mathlib.Tactic.Linarith
import Mathlib.Tactic.Positivity

namespace DdrdeskHost
open Text
set_option autoImplicit true

/-- One dimension of the picture: even, within its bounds, and within two pixels of the scaled
source; where that is less than the smallest one that is encoded, it is raised to this one. -/
structure Fits (s : ℚ) (src out bound least : Nat) : Prop where
  even : out % 2 = 0
  le_bound : out ≤ bound
  le_src : out ≤ src
  near : least ≤ s * src → |(out : ℚ) - s * src| < 2
  raised : s * src < least → out = least

/-- The even number below a rational one. -/
def evenFloor (q : ℚ) : Nat := ⌊q⌋.toNat / 2 * 2

theorem evenFloor_le (hq : 0 ≤ q) : (evenFloor q : ℚ) ≤ q := by
  have hfloor : 0 ≤ ⌊q⌋ := Int.floor_nonneg.2 hq
  have hle : ((evenFloor q : Nat) : ℤ) ≤ ⌊q⌋ := by
    rw [evenFloor]
    omega
  have hcast : ((evenFloor q : Nat) : ℚ) ≤ (⌊q⌋ : ℚ) := by exact_mod_cast hle
  exact hcast.trans (Int.floor_le q)

theorem lt_evenFloor (q : ℚ) : q < evenFloor q + 2 := by
  have hlt : ⌊q⌋ + 1 ≤ ((evenFloor q : Nat) : ℤ) + 2 := by
    rw [evenFloor]
    omega
  have hcast : (⌊q⌋ : ℚ) + 1 ≤ ((evenFloor q : Nat) : ℚ) + 2 := by exact_mod_cast hlt
  exact lt_of_lt_of_le (Int.lt_floor_add_one q) hcast

theorem fits_evenFloor {s : ℚ} {src bound least : Nat} (hs : 0 < s) (hs1 : s ≤ 1)
    (hbound : s * src ≤ bound) (hsrc : least ≤ src) (hleast : least ≤ bound)
    (heven : least % 2 = 0) :
    Fits s src (max (evenFloor (src * s)) least) bound least := by
  have hnonneg : (0 : ℚ) ≤ src * s := by positivity
  have hle := evenFloor_le hnonneg
  have hlt := lt_evenFloor (src * s)
  have hsrc' : (src : ℚ) * s ≤ src := mul_le_of_le_one_right (by positivity) hs1
  rw [mul_comm s] at hbound
  have hbound' : evenFloor (src * s) ≤ bound := by exact_mod_cast hle.trans hbound
  have hsrc'' : evenFloor (src * s) ≤ src := by exact_mod_cast hle.trans hsrc'
  have hfloor : evenFloor (src * s) % 2 = 0 := by
    rw [evenFloor]
    omega
  refine ⟨by omega, by omega, by omega, ?_, ?_⟩
  · intro hreach
    rw [mul_comm s] at hreach ⊢
    rcases Nat.le_total least (evenFloor (src * s)) with h | h
    · rw [Nat.max_eq_left h, abs_lt]
      constructor <;> linarith
    · have hcast : (evenFloor (src * s) : ℚ) ≤ least := by exact_mod_cast h
      rw [Nat.max_eq_right h, abs_lt]
      constructor <;> linarith
  · intro hraised
    rw [mul_comm s] at hraised
    have hless : evenFloor (src * s) < least := by exact_mod_cast hle.trans_lt hraised
    exact Nat.max_eq_right hless.le

/-- The factor that `fit_even` scales by. -/
def fitScale (w h maxW maxH : Nat) : ℚ := min (min ((maxW : ℚ) / w) (maxH / h)) 1

theorem fitScale_pos (hw : 0 < w) (hh : 0 < h) (hmw : 0 < maxW) (hmh : 0 < maxH) :
    0 < fitScale w h maxW maxH := by
  have hsx : (0 : ℚ) < (maxW : ℚ) / w := by positivity
  have hsy : (0 : ℚ) < (maxH : ℚ) / h := by positivity
  exact lt_min (lt_min hsx hsy) one_pos

theorem fitScale_mul_le (hw : 0 < w) (hh : 0 < h) :
    fitScale w h maxW maxH * w ≤ maxW ∧ fitScale w h maxW maxH * h ≤ maxH := by
  have hw' : (0 : ℚ) < w := by exact_mod_cast hw
  have hh' : (0 : ℚ) < h := by exact_mod_cast hh
  have hmin : fitScale w h maxW maxH ≤ min ((maxW : ℚ) / w) (maxH / h) := min_le_left _ _
  exact ⟨(le_div_iff₀ hw').1 (hmin.trans (min_le_left _ _)),
    (le_div_iff₀ hh').1 (hmin.trans (min_le_right _ _))⟩

theorem fitEven_eq (hw : 2 ≤ w) (hh : 2 ≤ h) :
    fitEven w h maxW maxH =
      (max (evenFloor (w * fitScale w h maxW maxH)) 640,
        max (evenFloor (h * fitScale w h maxW maxH)) 360) := by
  rw [fitEven, Nat.max_eq_left hw, Nat.max_eq_left hh]
  rfl

theorem fits_fitEven (hw : 640 ≤ sw) (hh : 400 ≤ sh) :
    0 < fitScale sw sh 1280 800 ∧ fitScale sw sh 1280 800 ≤ 1 ∧
      Fits (fitScale sw sh 1280 800) sw (fitEven (max sw 640) (max sh 400) 1280 800).1 1280 640 ∧
      Fits (fitScale sw sh 1280 800) sh (fitEven (max sw 640) (max sh 400) 1280 800).2 800 360 := by
  have hw0 : 0 < sw := by omega
  have hh0 : 0 < sh := by omega
  have hpos : 0 < fitScale sw sh 1280 800 := fitScale_pos hw0 hh0 (by decide) (by decide)
  have hone : fitScale sw sh 1280 800 ≤ 1 := min_le_right _ _
  obtain ⟨hmw, hmh⟩ : fitScale sw sh 1280 800 * sw ≤ (1280 : ℕ) ∧
      fitScale sw sh 1280 800 * sh ≤ (800 : ℕ) := fitScale_mul_le hw0 hh0
  rw [Nat.max_eq_left hw, Nat.max_eq_left hh, fitEven_eq (by omega) (by omega)]
  exact ⟨hpos, hone, fits_evenFloor hpos hone hmw hw (by decide) (by decide),
    fits_evenFloor hpos hone hmh (by omega) (by decide) (by decide)⟩

/-- The encoder's size is the desktop's, scaled by the largest factor up to one that keeps it within
1280x800, up to two pixels; a width below 640 or a height below 360 is raised to it. -/
theorem encode_size_scaled (K : Kscreen W) (w : W) (hsize : logicalSize K w = (sw, sh))
    (hw : 640 ≤ sw) (hh : 400 ≤ sh) :
    0 < fitScale sw sh 1280 800 ∧ fitScale sw sh 1280 800 ≤ 1 ∧
      Fits (fitScale sw sh 1280 800) sw (encodeSize K w).1 1280 640 ∧
      Fits (fitScale sw sh 1280 800) sh (encodeSize K w).2 800 360 := by
  rw [encodeSize, hsize]
  exact fits_fitEven hw hh

/-- A desktop of this size. -/
def screenOf (geometry : Str) : Kscreen Unit where
  live _ := true
  list _ := some ("Output: 1 eDP-1\nGeometry: 0,0 ".toList ++ geometry)
  exec _ w := w
  persist _ s _ := some s

/-- A panel that is twice as wide as it is high keeps its shape. -/
theorem encode_size_scaled_panel :
    fitScale 2560 1280 1280 800 = 1 / 2 ∧ Fits (1 / 2) 2560 1280 1280 640 ∧
      Fits (1 / 2) 1280 640 800 360 := by
  have hsize : logicalSize (screenOf "2560x1280".toList) () = (2560, 1280) := by decide +kernel
  have henc : encodeSize (screenOf "2560x1280".toList) () = (1280, 640) := by decide +kernel
  have hscale : fitScale 2560 1280 1280 800 = 1 / 2 := by decide +kernel
  obtain ⟨-, -, h⟩ := encode_size_scaled (screenOf "2560x1280".toList) () hsize (by decide)
    (by decide)
  rw [henc, hscale] at h
  exact ⟨hscale, h⟩

/-- A rotated panel of 1080x1920 is encoded at 640x800. -/
theorem rotated_panel_stretched :
    ¬∀ (K : Kscreen Unit) (w : Unit), 640 ≤ (logicalSize K w).1 → 400 ≤ (logicalSize K w).2 →
      (encodeSize K w).1 % 2 = 0 ∧ (encodeSize K w).2 % 2 = 0 ∧
      (encodeSize K w).1 ≤ 1280 ∧ (encodeSize K w).2 ≤ 800 ∧
      (encodeSize K w).1 ≤ (logicalSize K w).1 ∧ (encodeSize K w).2 ≤ (logicalSize K w).2 ∧
      ∃ s : ℚ, 0 < s ∧ s ≤ 1 ∧ |((encodeSize K w).1 : ℚ) - s * (logicalSize K w).1| ≤ 2 ∧
        |((encodeSize K w).2 : ℚ) - s * (logicalSize K w).2| ≤ 2 := by
  intro h
  have hsize : logicalSize (screenOf "1080x1920".toList) () = (1080, 1920) := by decide +kernel
  have henc : encodeSize (screenOf "1080x1920".toList) () = (640, 800) := by decide +kernel
  have hs := h (screenOf "1080x1920".toList) () (by rw [hsize]; decide) (by rw [hsize]; decide)
  rw [hsize, henc] at hs
  obtain ⟨-, -, -, -, -, -, s, -, -, hw, hh⟩ := hs
  -- the width wants a factor of 638/1080 at least, the height one of 802/1920 at most
  have hw' := (abs_le.1 hw).2
  have hh' := (abs_le.1 hh).1
  norm_num at hw' hh'
  linarith

end DdrdeskHost
