import Mathlib.Data.List.Infix

set_option autoImplicit true

/-- No part at the end of the word is also at its front. -/
def Unbordered (w : List α) : Prop := ∀ n < w.length, 0 < n → ¬w.drop n <+: w

instance [DecidableEq α] (w : List α) : Decidable (Unbordered w) :=
  inferInstanceAs (Decidable (∀ n < w.length, 0 < n → ¬w.drop n <+: w))

/-- Words, each behind the separator. -/
def separated (w : List α) (xs : List (List α)) : List α := xs.flatMap fun x => w ++ x

@[simp] theorem separated_cons (w x : List α) (xs : List (List α)) :
    separated w (x :: xs) = w ++ (x ++ separated w xs) :=
  List.append_assoc w x _

namespace Unbordered
variable {w : List α}

theorem eq_nil_or (hw : Unbordered w) (ha : w = a ++ c) (hc : c <+: w) : a = [] ∨ c = [] := by
  by_cases hlen : a.length < w.length
  · by_cases hpos : 0 < a.length
    · have hdrop : w.drop a.length = c := by rw [ha, List.drop_left]
      exact absurd (hdrop ▸ hc) (hw a.length hlen hpos)
    · exact .inl (List.eq_nil_of_length_eq_zero (Nat.eq_zero_of_not_pos hpos))
  · rw [ha, List.length_append] at hlen
    exact .inr (List.eq_nil_of_length_eq_zero (by omega))

theorem eq_nil (hw : Unbordered w) (ha : ¬w <:+: a) (h : separated w xs = a ++ separated w ys) :
    a = [] := by
  cases xs with
  | nil => exact (List.append_eq_nil_iff.1 h.symm).1
  | cons x xs =>
    rw [separated_cons, List.append_eq_append_iff] at h
    rcases h with ⟨b, rfl, -⟩ | ⟨c, hwc, hys⟩
    · exact absurd (List.prefix_append w b).isInfix ha
    · -- the separator ends within the next one, or with the part itself
      cases ys with
      | nil =>
        have hc : c = [] := (List.append_eq_nil_iff.1 hys.symm).1
        rw [hc, List.append_nil] at hwc
        exact absurd (hwc ▸ List.infix_rfl) ha
      | cons y ys =>
        rw [separated_cons] at hys
        have hle : c.length ≤ w.length := by
          rw [hwc, List.length_append]
          omega
        have hc : c <+: w := List.prefix_of_prefix_length_le ⟨_, hys.symm⟩
          (List.prefix_append w _) hle
        rcases hw.eq_nil_or hwc hc with hnil | hnil
        · exact hnil
        · rw [hnil, List.append_nil] at hwc
          exact absurd (hwc ▸ List.infix_rfl) ha

theorem append_separated_inj (hw : Unbordered w) (hx : ¬w <:+: x) (hy : ¬w <:+: y)
    (h : x ++ separated w xs = y ++ separated w ys) : x = y := by
  rcases List.append_eq_append_iff.1 h with ⟨a, rfl, ha⟩ | ⟨a, rfl, ha⟩
  · have hna : ¬w <:+: a := fun hi => hy (hi.trans (List.suffix_append x a).isInfix)
    rw [hw.eq_nil hna ha, List.append_nil]
  · have hna : ¬w <:+: a := fun hi => hx (hi.trans (List.suffix_append y a).isInfix)
    rw [hw.eq_nil hna ha, List.append_nil]

theorem separated_inj (hw : Unbordered w) (hne : w ≠ []) (hx : ∀ x ∈ xs, ¬w <:+: x)
    (hy : ∀ y ∈ ys, ¬w <:+: y) (h : separated w xs = separated w ys) : xs = ys := by
  induction xs generalizing ys with
  | nil =>
    cases ys with
    | nil => rfl
    | cons y ys => exact absurd (List.append_eq_nil_iff.1 ((separated_cons w y ys) ▸ h.symm)).1 hne
  | cons x xs ih =>
    cases ys with
    | nil => exact absurd (List.append_eq_nil_iff.1 ((separated_cons w x xs) ▸ h)).1 hne
    | cons y ys =>
      rw [separated_cons, separated_cons] at h
      have hrest := List.append_cancel_left h
      obtain rfl := hw.append_separated_inj (hx x List.mem_cons_self) (hy y List.mem_cons_self)
        hrest
      have hxs := ih (fun z hz => hx z (List.mem_cons_of_mem x hz))
        (fun z hz => hy z (List.mem_cons_of_mem x hz)) (List.append_cancel_left hrest)
      rw [hxs]

end Unbordered
