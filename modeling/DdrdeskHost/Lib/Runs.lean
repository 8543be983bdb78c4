import Mathlib.Algebra.BigOperators.Group.Finset.Basic
import Mathlib.Algebra.BigOperators.Pi
import Mathlib.Data.Fintype.Basic

set_option autoImplicit true

variable {σ γ ε ι α : Type*}

/-- Finite runs of a labelled step relation. -/
inductive Run (step : σ → ε → σ → Prop) : σ → List ε → σ → Prop
  | nil (s : σ) : Run step s [] s
  | cons : step s e t → Run step t es u → Run step s (e :: es) u

namespace Run
variable {step : σ → ε → σ → Prop}

theorem append (h : Run step s es t) (h' : Run step t es' u) : Run step s (es ++ es') u := by
  induction h with
  | nil => exact h'
  | cons hs _ ih => exact .cons hs (ih h')

theorem single (h : step s e t) : Run step s [e] t := .cons h (.nil t)

/-- What every step keeps holds in every state that a run reaches. -/
theorem invariant {I : σ → Prop} (hstep : ∀ s e t, I s → step s e t → I t)
    (h : Run step s es t) (hs : I s) : I t := by
  induction h with
  | nil => exact hs
  | cons hst _ ih => exact ih (hstep _ _ _ hs hst)

/-- As `invariant`, for a property of the state and of the events so far. -/
theorem invariant_trace {I : List ε → σ → Prop}
    (hstep : ∀ p s e t, I p s → step s e t → I (p ++ [e]) t)
    (h : Run step s es t) (hs : I p s) : I (p ++ es) t := by
  induction h generalizing p with
  | nil => rwa [List.append_nil]
  | cons hst _ ih =>
    rw [List.append_cons]
    exact ih (hstep _ _ _ _ hs hst)

theorem mono {step' : σ → ε → σ → Prop} (hsub : ∀ s e t, step s e t → step' s e t)
    (h : Run step s es t) : Run step' s es t := by
  induction h with
  | nil => exact .nil _
  | cons hs _ ih => exact .cons (hsub _ _ _ hs) ih

theorem split (h : Run step s (es ++ es') u) : ∃ t, Run step s es t ∧ Run step t es' u := by
  induction es generalizing s with
  | nil => exact ⟨s, .nil s, h⟩
  | cons e es ih =>
    cases h with
    | cons hs hr =>
      obtain ⟨t, h₁, h₂⟩ := ih hr
      exact ⟨t, .cons hs h₁, h₂⟩

/-- As `countP_le`, up to a state in which something holds. -/
theorem reaches {I Q : σ → Prop} {μ : σ → ℕ} {p : ε → Bool}
    (hstep : ∀ s e t, I s → step s e t → Q t ∨ I t ∧ μ t + (if p e then 1 else 0) ≤ μ s)
    (h : Run step s es t) (hs : I s) :
    (∃ es₁ es₂ u, es = es₁ ++ es₂ ∧ Run step s es₁ u ∧ Q u) ∨
      I t ∧ es.countP p + μ t ≤ μ s := by
  induction h with
  | nil s => exact .inr ⟨hs, by rw [List.countP_nil, Nat.zero_add]⟩
  | @cons s e t es u hst hr ih =>
    rcases hstep _ _ _ hs hst with hq | ⟨ht, hle⟩
    · exact .inl ⟨[e], es, t, rfl, .single hst, hq⟩
    · rcases ih ht with ⟨es₁, es₂, v, rfl, hv, hq⟩ | ⟨hu, hrest⟩
      · exact .inl ⟨e :: es₁, es₂, v, rfl, .cons hst hv, hq⟩
      · refine .inr ⟨hu, ?_⟩
        rw [List.countP_cons]
        omega

/-- A log that only grows along a run. -/
theorem log_prefix {log : σ → List α} (hlog : ∀ s e t, step s e t → log s <+: log t)
    (h : Run step s es t) : log s <+: log t :=
  h.invariant (I := fun u => log s <+: log u) (fun _ _ _ hs hst => hs.trans (hlog _ _ _ hst))
    List.prefix_rfl

/-- An entry of the log was made by a step; what stood before it then is what stands before it
now. -/
theorem exists_logged {log : σ → List α} (hlog : ∀ s e t, step s e t → log s <+: log t)
    (h : Run step s es t) (hs : (log s).length ≤ p.length) (ht : log t = p ++ a :: q) :
    ∃ es₁ e es₂ r u, es = es₁ ++ e :: es₂ ∧ Run step s es₁ r ∧ step r e u ∧ Run step u es₂ t ∧
      log r <+: p ∧ p ++ [a] <+: log u := by
  induction h with
  | nil s =>
    rw [ht, List.length_append, List.length_cons] at hs
    omega
  | @cons s e u es t hst hr ih =>
    have hsu := hlog s e u hst
    have hut := hr.log_prefix hlog
    have hpt : p ++ [a] <+: log t := ⟨q, by rw [ht, List.append_assoc, List.singleton_append]⟩
    by_cases hlen : (log u).length ≤ p.length
    · obtain ⟨es₁, e', es₂, r, v, rfl, h₁, h₂, h₃, h₄⟩ := ih hlen ht
      exact ⟨e :: es₁, e', es₂, r, v, rfl, .cons hst h₁, h₂, h₃, h₄⟩
    · have hsp : log s <+: p ++ [a] := by
        apply List.prefix_of_prefix_length_le (hsu.trans hut) hpt
        rw [List.length_append]
        omega
      have hup : p ++ [a] <+: log u := by
        apply List.prefix_of_prefix_length_le hpt hut
        rw [List.length_append, List.length_singleton]
        omega
      have hp : log s <+: p := List.prefix_of_prefix_length_le hsp (List.prefix_append p [a]) hs
      exact ⟨[], e, es, s, u, rfl, .nil s, hst, hr, hp, hup⟩

end Run

/-- The steps that are taken where a condition on the state and the event holds. -/
def Guard (C : σ → ε → Prop) (step : σ → ε → σ → Prop) : σ → ε → σ → Prop :=
  fun s e t => C s e ∧ step s e t

theorem Run.of_guard {step : σ → ε → σ → Prop} (h : Run (Guard C step) s es t) :
    Run step s es t :=
  h.mono fun _ _ _ hs => hs.2

/-- A partial step function as a step relation. -/
def Steps (f : σ → ε → Option σ) : σ → ε → σ → Prop :=
  fun s e t => f s e = some t

theorem run_steps_iff {f : σ → ε → Option σ} :
    Run (Steps f) s es t ↔ es.foldlM f s = some t := by
  induction es generalizing s with
  | nil =>
    constructor
    · intro h
      cases h
      rfl
    · intro h
      cases h
      exact .nil _
  | cons e es ih =>
    rw [List.foldlM_cons]
    constructor
    · intro h
      cases h with
      | cons hs hr => exact Option.bind_eq_some_iff.2 ⟨_, hs, ih.1 hr⟩
    · intro h
      obtain ⟨u, hu, hr⟩ := Option.bind_eq_some_iff.1 h
      exact .cons hu (ih.2 hr)

theorem run_steps_unique {f : σ → ε → Option σ} (h : Run (Steps f) s es t)
    (h' : Run (Steps f) s es u) : t = u :=
  Option.some.inj ((run_steps_iff.1 h).symm.trans (run_steps_iff.1 h'))

/-- A step function that stops where a decidable condition fails. -/
def guarded (C : σ → ε → Prop) [∀ s e, Decidable (C s e)] (f : σ → ε → Option σ) (s : σ) (e : ε) :
    Option σ :=
  if C s e then f s e else none

theorem run_guarded_iff {f : σ → ε → Option σ} {C : σ → ε → Prop} [∀ s e, Decidable (C s e)] :
    Run (Guard C (Steps f)) s es t ↔ es.foldlM (guarded C f) s = some t := by
  have hsteps : Guard C (Steps f) = Steps (guarded C f) := by
    funext s e t
    simp only [Guard, Steps, guarded, Option.ite_none_right_eq_some]
  rw [hsteps, run_steps_iff]

/-- Any number of parties take turns; each steps on its own state and the shared one. -/
inductive Interleave [DecidableEq ι] (party : σ → γ → ε → σ → γ → Prop) :
    (ι → σ) × γ → ι × ε → (ι → σ) × γ → Prop
  | turn {c : ι → σ} {i : ι} {g : γ} {e : ε} {l' : σ} {g' : γ} :
      party (c i) g e l' g' → Interleave party (c, g) (i, e) (Function.update c i l', g')

/-- The acting party's step function, on its own state and the shared one. -/
def takeTurn [DecidableEq ι] (f : σ → γ → ε → Option (σ × γ)) (s : (ι → σ) × γ) (e : ι × ε) :
    Option ((ι → σ) × γ) :=
  (f (s.1 e.1) s.2 e.2).map fun r => (Function.update s.1 e.1 r.1, r.2)

theorem takeTurn_eq [DecidableEq ι] {f : σ → γ → ε → Option (σ × γ)} {s : (ι → σ) × γ} {i : ι}
    (h : f (s.1 i) s.2 e = some (l', g')) :
    takeTurn f s (i, e) = some (Function.update s.1 i l', g') := by
  rw [takeTurn, h]
  rfl

namespace Interleave
variable [DecidableEq ι] {party : σ → γ → ε → σ → γ → Prop} {s t : (ι → σ) × γ} {e : ι × ε}

theorem of_turn {f : σ → γ → ε → Option (σ × γ)} {C : σ → γ → ε → Prop}
    (hc : C (s.1 e.1) s.2 e.2) (h : takeTurn f s e = some t) :
    Interleave (fun l g x l' g' => C l g x ∧ f l g x = some (l', g')) s e t := by
  obtain ⟨⟨l', g'⟩, hf, rfl⟩ := Option.map_eq_some_iff.1 h
  exact .turn ⟨hc, hf⟩

/-- Non-interference: what the acting party keeps for itself and for any other party holds. -/
theorem forall_keep {I : σ → γ → Prop}
    (own : ∀ l g e l' g', I l g → party l g e l' g' → I l' g')
    (other : ∀ m l g e l' g', I m g → I l g → party l g e l' g' → I m g')
    (hs : ∀ i, I (s.1 i) s.2) (h : Interleave party s e t) : ∀ i, I (t.1 i) t.2 := by
  cases h with
  | @turn c i g e l' g' hp =>
    intro j
    by_cases hj : j = i
    · subst hj
      simpa only [Function.update_self] using own _ _ _ _ _ (hs j) hp
    · simpa only [Function.update_of_ne hj] using other _ _ _ _ _ _ (hs j) (hs i) hp

/-- A relation between parties that no party's step breaks. -/
theorem pairwise_keep {R : σ → σ → Prop} (symm : ∀ l m, R l m → R m l)
    (hs : ∀ i j, i ≠ j → R (s.1 i) (s.1 j)) (h : Interleave party s e t)
    (own : ∀ j, j ≠ e.1 → R (s.1 e.1) (s.1 j) → R (t.1 e.1) (s.1 j)) :
    ∀ i j, i ≠ j → R (t.1 i) (t.1 j) := by
  cases h with
  | @turn c i g e l' g' hp =>
    simp only [Function.update_self] at own
    intro j k hjk
    by_cases hj : j = i
    · subst hj
      have hk : k ≠ j := fun h => hjk h.symm
      simpa only [Function.update_self, Function.update_of_ne hk] using
        own k hk (hs j k hjk)
    · by_cases hk : k = i
      · subst hk
        simpa only [Function.update_self, Function.update_of_ne hj] using
          symm _ _ (own j hj (hs k j (Ne.symm hjk)))
      · simpa only [Function.update_of_ne hj, Function.update_of_ne hk] using hs j k hjk

/-- A shared counter that every step moves as the acting party's share is their sum. -/
theorem sum_keep [Fintype ι] (share : σ → ℕ) (count : γ → ℕ)
    (hstep : ∀ c i g e l' g', s = (c, g) → party (c i) g e l' g' →
      count g' + share (c i) = count g + share l')
    (hs : count s.2 = ∑ i, share (s.1 i)) (h : Interleave party s e t) :
    count t.2 = ∑ i, share (t.1 i) := by
  cases h with
  | @turn c i g e l' g' hp =>
    have he := hstep c i g e l' g' rfl hp
    have hold := Finset.add_sum_erase Finset.univ (fun j => share (c j)) (Finset.mem_univ i)
    have hnew := Finset.add_sum_erase Finset.univ
      (fun j => share (Function.update c i l' j)) (Finset.mem_univ i)
    have hrest : ∑ j ∈ Finset.univ.erase i, share (Function.update c i l' j) =
        ∑ j ∈ Finset.univ.erase i, share (c j) :=
      Finset.sum_congr rfl fun j hj => by rw [Function.update_of_ne (Finset.ne_of_mem_erase hj)]
    simp only [Function.update_self, hrest] at hnew
    simp only at hs ⊢
    omega

end Interleave
