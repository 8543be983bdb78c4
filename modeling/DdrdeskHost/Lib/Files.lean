import Mathlib.Logic.Function.Basic

set_option autoImplicit true

variable {π γ : Type*}

/-- What the files at some paths hold, where they are there. -/
abbrev Files (π γ : Type*) := π → Option γ

namespace Files
variable [DecidableEq π]

/-- Create a file or replace what it holds. -/
def write (d : Files π γ) (w : π × γ) : Files π γ := Function.update d w.1 (some w.2)

/-- Some writes, one after another. -/
def writes (d : Files π γ) (ws : List (π × γ)) : Files π γ := ws.foldl write d

/-- What is left when the writer is killed: it has done some of the writes, and a part of the next
one if it was at it. -/
inductive Torn (part : γ → γ → Prop) : Files π γ → List (π × γ) → Files π γ → Prop
  | between (d : Files π γ) (ws : List (π × γ)) : Torn part d ws d
  | within (d : Files π γ) (p : π) {c c' : γ} (h : part c' c) (ws : List (π × γ)) :
    Torn part d ((p, c) :: ws) (d.write (p, c'))
  | after (h : Torn part (d.write w) ws d') : Torn part d (w :: ws) d'

variable {part : γ → γ → Prop} {d d' : Files π γ} {p : π}

@[simp] theorem write_self (d : Files π γ) (p : π) (c : γ) : d.write (p, c) p = some c := by
  rw [write, Function.update_self]

theorem write_of_ne {q : π} (d : Files π γ) (c : γ) (h : q ≠ p) :
    d.write (p, c) q = d q := by
  rw [write, Function.update_of_ne h]

@[simp] theorem writes_nil (d : Files π γ) : d.writes [] = d := rfl

@[simp] theorem writes_cons (d : Files π γ) (w : π × γ) (ws : List (π × γ)) :
    d.writes (w :: ws) = (d.write w).writes ws := rfl

theorem Torn.all (d : Files π γ) (ws : List (π × γ)) : Torn part d ws (d.writes ws) := by
  induction ws generalizing d with
  | nil => exact .between d []
  | cons w ws ih => exact .after (ih (d.write w))

theorem Torn.nil (h : Torn part d [] d') : d' = d := by
  cases h
  rfl

theorem Torn.cons (h : Torn part d ((p, c) :: ws) d') :
    d' = d ∨ (∃ c', part c' c ∧ d' = d.write (p, c')) ∨ Torn part (d.write (p, c)) ws d' := by
  cases h with
  | between => exact .inl rfl
  | within _ _ h => exact .inr (.inl ⟨_, h, rfl⟩)
  | after h => exact .inr (.inr h)

theorem Torn.pair (h : Torn part d [(p, c), (q, e)] d') :
    d' = d ∨ (∃ c', part c' c ∧ d' = d.write (p, c')) ∨ d' = d.write (p, c) ∨
      (∃ e', part e' e ∧ d' = (d.write (p, c)).write (q, e')) ∨
      d' = d.writes [(p, c), (q, e)] := by
  rcases h.cons with h | h | h
  · exact .inl h
  · exact .inr (.inl h)
  · rcases h.cons with h | h | h
    · exact .inr (.inr (.inl h))
    · exact .inr (.inr (.inr (.inl h)))
    · exact .inr (.inr (.inr (.inr h.nil)))

end Files
