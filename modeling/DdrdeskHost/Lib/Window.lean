import Mathlib.Data.List.Basic
import Mathlib.Order.Basic

/-! Counters of calls in windows that the first call after the last window begins. -/

namespace Window
set_option autoImplicit true

/-- The count and the beginning of the window after one more call. -/
def tick (period : Nat) (w : Option (Nat × Nat)) (now : Nat) : Nat × Nat :=
  match w with
  | none => (1, now)
  | some (c, t) => if period < now - t then (1, now) else (c + 1, t)

def after (period : Nat) (w : Option (Nat × Nat)) (ts : List Nat) : Option (Nat × Nat) :=
  ts.foldl (fun w now => some (tick period w now)) w

/-- Each call, and whether it is among the first `limit` ones of its window. -/
def results (period limit : Nat) : Option (Nat × Nat) → List Nat → List (Nat × Bool)
  | _, [] => []
  | w, now :: ts =>
    let e := tick period w now
    (now, decide (e.1 ≤ limit)) :: results period limit (some e) ts

/-- The calls of a closed interval that are allowed. -/
def granted (rs : List (Nat × Bool)) (a b : Nat) : Nat :=
  rs.countP fun x => x.2 && decide (a ≤ x.1 ∧ x.1 ≤ b)

theorem tick_pos (period : Nat) (w : Option (Nat × Nat)) (now : Nat) :
    0 < (tick period w now).1 := by
  rcases w with - | ⟨c, t⟩
  · exact Nat.one_pos
  · rw [tick]
    split
    · exact Nat.one_pos
    · exact Nat.succ_pos c

theorem tick_in_window (h : now ≤ t + period) : tick period (some (c, t)) now = (c + 1, t) := by
  rw [tick, if_neg]
  omega

theorem tick_restart (h : t + period < now) : tick period (some (c, t)) now = (1, now) := by
  rw [tick, if_pos]
  omega

theorem granted_cons (period limit : Nat) (w : Option (Nat × Nat)) (now : Nat) (ts : List Nat)
    (a b : Nat) : granted (results period limit w (now :: ts)) a b =
      granted (results period limit (some (tick period w now)) ts) a b +
        if (tick period w now).1 ≤ limit ∧ a ≤ now ∧ now ≤ b then 1 else 0 := by
  simp only [granted, results, List.countP_cons, Bool.and_eq_true, decide_eq_true_eq]

theorem granted_cons_out (h : ¬(a ≤ now ∧ now ≤ b)) :
    granted (results period limit w (now :: ts)) a b =
    granted (results period limit (some (tick period w now)) ts) a b := by
  rw [granted_cons, if_neg fun hc => h hc.2, Nat.add_zero]

theorem granted_late (h : ∀ t ∈ ts, b < t) : granted (results period limit w ts) a b = 0 := by
  induction ts generalizing w with
  | nil => rfl
  | cons now ts ih =>
    have hnow : ¬now ≤ b := Nat.not_le.2 (h now List.mem_cons_self)
    rw [granted_cons_out fun hc => hnow hc.2]
    exact ih fun t ht => h t (List.mem_cons_of_mem _ ht)

theorem granted_window (hs : ts.Pairwise (· ≤ ·)) (hb : b ≤ t + period) :
    granted (results period limit (some (c, t)) ts) a b ≤ limit - c := by
  induction ts generalizing c with
  | nil => exact Nat.zero_le _
  | cons now ts ih =>
    obtain ⟨hnow, hs⟩ := List.pairwise_cons.1 hs
    by_cases hle : now ≤ b
    · have hc := ih hs (c := c + 1)
      rw [granted_cons, tick_in_window (Nat.le_trans hle hb)]
      split <;> omega
    · have hlate : ∀ x ∈ ts, b < x := by
        intro x hx
        exact Nat.lt_of_lt_of_le (Nat.lt_of_not_le hle) (hnow x hx)
      rw [granted_cons_out fun hc => hle hc.2, granted_late hlate]
      exact Nat.zero_le _

theorem granted_inside (hs : ts.Pairwise (· ≤ ·)) (ha : ∀ x ∈ ts, a ≤ x) (hb : b ≤ a + period) :
    granted (results period limit (some (c, t)) ts) a b ≤ limit - c + limit := by
  induction ts generalizing c with
  | nil => exact Nat.zero_le _
  | cons now ts ih =>
    obtain ⟨-, hs⟩ := List.pairwise_cons.1 hs
    have hnow : a ≤ now := ha now List.mem_cons_self
    rw [granted_cons]
    by_cases hle : now ≤ t + period
    · have hc := ih hs (fun x hx => ha x (List.mem_cons_of_mem _ hx)) (c := c + 1)
      rw [tick_in_window hle]
      split <;> omega
    · have hc : granted (results period limit (some (1, now)) ts) a b ≤ limit - 1 :=
        granted_window hs (Nat.le_trans hb (Nat.add_le_add_right hnow period))
      rw [tick_restart (Nat.lt_of_not_le hle)]
      split <;> omega

theorem granted_running (hs : ts.Pairwise (· ≤ ·)) (hb : b ≤ a + period) (hc : 0 < c) :
    granted (results period limit (some (c, t)) ts) a b ≤ 2 * limit - 1 := by
  induction ts generalizing c t with
  | nil => exact Nat.zero_le _
  | cons now ts ih =>
    by_cases hlt : now < a
    · obtain ⟨-, hs⟩ := List.pairwise_cons.1 hs
      rw [granted_cons_out fun hc => Nat.not_le.2 hlt hc.1]
      exact ih hs (tick_pos period (some (c, t)) now)
    · have hall : ∀ x ∈ now :: ts, a ≤ x := by
        intro x hx
        rcases List.mem_cons.1 hx with rfl | hx
        · exact Nat.le_of_not_lt hlt
        · exact Nat.le_trans (Nat.le_of_not_lt hlt) ((List.pairwise_cons.1 hs).1 x hx)
      have hin : granted (results period limit (some (c, t)) (now :: ts)) a b ≤
          limit - c + limit := granted_inside hs hall hb
      omega

/-- Two windows can meet in an interval of their length, but not with the first call of both. -/
theorem granted_le (hs : ts.Pairwise (· ≤ ·)) (hb : b ≤ a + period) :
    granted (results period limit none ts) a b ≤ 2 * limit - 1 := by
  cases ts with
  | nil => exact Nat.zero_le _
  | cons now ts =>
    obtain ⟨-, hs⟩ := List.pairwise_cons.1 hs
    by_cases hle : a ≤ now
    · have hc : granted (results period limit (some (1, now)) ts) a b ≤ limit - 1 :=
        granted_window hs (Nat.le_trans hb (Nat.add_le_add_right hle period))
      rw [granted_cons, tick]
      split <;> omega
    · rw [granted_cons_out fun hc => hle hc.1, tick]
      exact granted_running hs hb Nat.one_pos

theorem after_cons (period : Nat) (w : Option (Nat × Nat)) (now : Nat) (ts : List Nat) :
    after period w (now :: ts) = after period (some (tick period w now)) ts := rfl

theorem tick_le (period : Nat) (w : Option (Nat × Nat)) (now : Nat) :
    (tick period w now).1 ≤ (w.map Prod.fst).getD 0 + 1 := by
  rcases w with - | ⟨c, t⟩
  · exact Nat.le_refl 1
  · rw [tick]
    split
    · exact Nat.le_add_left 1 c
    · exact Nat.le_refl _

theorem after_le (h : after period w ts = some e) :
    e.1 ≤ (w.map Prod.fst).getD 0 + ts.length := by
  induction ts generalizing w with
  | nil =>
    cases h
    exact Nat.le_refl _
  | cons now ts ih =>
    have hle := ih h
    have htick := tick_le period w now
    simp only [Option.map_some, Option.getD_some] at hle
    rw [List.length_cons]
    omega

end Window
