import DdrdeskHost.Auth
import DdrdeskHost.Host
import DdrdeskHost.Limiter
import DdrdeskHost.Output

namespace DdrdeskHost
open RateLimit
set_option autoImplicit true

/-- A call of `allow` and its result. -/
structure Attempt where
  caller : IpAddr
  now : Nat
  allowed : Bool
  deriving DecidableEq

def Effect.attempt : Effect → Option Attempt
  | .allow addr now allowed => some ⟨addr, now, allowed⟩
  | _ => none

def attempts (log : List (ι × Effect)) : List Attempt := log.filterMap fun x => x.2.attempt

/-- The limiter is called, and gives this result. -/
def RateLimit.attempt (r : RateLimit) (a : Attempt) : Option RateLimit :=
  let r' := r.allow a.caller a.now
  if r'.2 = a.allowed then some r'.1 else none

/-- How many calls of an address have been allowed since a time. -/
def allowedSince (k t : Nat) (as : List Attempt) : Nat :=
  as.countP fun a => a.allowed ∧ a.caller.key = k ∧ t ≤ a.now

/-- The clock does not go back. -/
def InOrder (as : List Attempt) : Prop := as.Pairwise fun a b => a.now ≤ b.now

/-- Every window began at a call, and as many calls were allowed in it as it counts, up to eight. -/
def Earned (as : List Attempt) (r : RateLimit) : Prop :=
  ∀ k e, r.hits k = some e → (∃ a ∈ as, e.2 = a.now) ∧ min e.1 8 ≤ allowedSince k e.2 as

namespace RateLimit

theorem attempt_eq_some {r r' : RateLimit} (h : r.attempt a = some r') :
    (r.allow a.caller a.now).1 = r' ∧ (r.allow a.caller a.now).2 = a.allowed := by
  obtain ⟨ha, h⟩ := Option.ite_none_right_eq_some.1 h
  exact ⟨Option.some.inj h, ha⟩

theorem counted_cases (now : Nat) (m : Option (Nat × Nat)) :
    counted now m = (1, now) ∨ ∃ e, m = some e ∧ now ≤ e.2 + secs 30 ∧
      counted now m = ((e.1 + 1) % 2 ^ 32, e.2) := by
  rw [counted]
  cases hm : retained now m with
  | none => exact .inl (by simp)
  | some e =>
    by_cases hlate : now - e.2 > secs 30
    · exact .inl (by simp [hlate])
    · refine .inr ⟨e, (retained_eq_some hm).1, by omega, ?_⟩
      simp only [Option.getD_some, hlate, ↓reduceIte]

end RateLimit

theorem allowedSince_concat (k t : Nat) (as : List Attempt) (a : Attempt) :
    allowedSince k t (as ++ [a]) = allowedSince k t as +
      if a.allowed = true ∧ a.caller.key = k ∧ t ≤ a.now then 1 else 0 := by
  simp only [allowedSince, List.countP_append, List.countP_singleton, decide_eq_true_eq]

theorem Earned.attempt {r r' : RateLimit} (h : Earned as r) (hs : InOrder (as ++ [a]))
    (ha : r.attempt a = some r') : Earned (as ++ [a]) r' := by
  obtain ⟨rfl, hres⟩ := attempt_eq_some ha
  have hpast : ∀ x ∈ as, x.now ≤ a.now := by
    intro x hx
    exact (List.pairwise_append.1 hs).2.2 x hx a List.mem_cons_self
  intro k e he
  by_cases hk : k = a.caller.key
  · subst hk
    rw [allow_own] at he
    rw [allow_result] at hres
    cases he
    rcases counted_cases a.now (r.hits a.caller.key) with hc | ⟨e, hm, -, hc⟩
    · rw [hc] at hres ⊢
      refine ⟨⟨a, List.mem_append_right as List.mem_cons_self, rfl⟩, ?_⟩
      have hone : a.allowed = true := hres.symm
      rw [allowedSince_concat, if_pos ⟨hone, rfl, Nat.le_refl _⟩]
      omega
    · obtain ⟨⟨x, hx, hbegan⟩, hcount⟩ := h _ e hm
      rw [hc] at hres ⊢
      refine ⟨⟨x, List.mem_append_left _ hx, hbegan⟩, ?_⟩
      have hle : e.2 ≤ a.now := hbegan ▸ hpast x hx
      have hmod := Nat.mod_le (e.1 + 1) (2 ^ 32)
      rw [allowedSince_concat]
      by_cases hallow : (e.1 + 1) % 2 ^ 32 ≤ 8
      · rw [if_pos ⟨hres.symm.trans (decide_eq_true hallow), rfl, hle⟩]
        simp only
        omega
      · simp only
        omega
  · rw [allow_other r a.now hk] at he
    obtain ⟨⟨x, hx, hbegan⟩, hcount⟩ := h k e (retained_eq_some he).1
    refine ⟨⟨x, List.mem_append_left _ hx, hbegan⟩, ?_⟩
    rw [allowedSince_concat]
    omega

theorem InOrder.left (h : InOrder (as ++ bs)) : InOrder as := (List.pairwise_append.1 h).1

theorem earned_run {r : RateLimit} (h : Run (Steps RateLimit.attempt) RateLimit.new as r) :
    InOrder as → Earned as r := by
  apply h.invariant_trace (p := []) (I := fun p r => InOrder p → Earned p r)
  · intro p r a r' hp ha hs
    exact (hp hs.left).attempt hs ha
  · intro _ k e he
    cases he

/-- A call is refused only after eight that were allowed in the last 30 s. -/
theorem refused_after_eight {r : RateLimit}
    (h : Run (Steps RateLimit.attempt) RateLimit.new (p ++ a :: q) r) (hs : InOrder (p ++ a :: q))
    (ha : a.allowed = false) :
    ∃ since, a.now ≤ since + secs 30 ∧ 8 ≤ allowedSince a.caller.key since p := by
  obtain ⟨r₁, h₁, h₂⟩ := h.split
  have hearned := earned_run h₁ hs.left
  cases h₂ with
  | cons hst _ =>
    obtain ⟨-, hres⟩ := attempt_eq_some hst
    rw [allow_result, ha, decide_eq_false_iff_not] at hres
    rcases counted_cases a.now (r₁.hits a.caller.key) with hc | ⟨e, hm, hlate, hc⟩
    · rw [hc] at hres
      omega
    · obtain ⟨-, hcount⟩ := hearned _ e hm
      have hmod := Nat.mod_le (e.1 + 1) (2 ^ 32)
      rw [hc] at hres
      exact ⟨e.2, hlate, by omega⟩

theorem window_stays {r r' : RateLimit} (h : Run (Steps RateLimit.attempt) r q r')
    (hq : ∀ x ∈ q, x.caller.key = k → x.allowed = false) (hr : ∀ e, r.hits k = some e → e.2 ≤ b) :
    ∀ e, r'.hits k = some e → e.2 ≤ b := by
  induction h with
  | nil => exact hr
  | @cons r a r₁ q r' hst _ ih =>
    obtain ⟨ha, hq⟩ := List.forall_mem_cons.1 hq
    obtain ⟨rfl, hres⟩ := attempt_eq_some hst
    apply ih hq
    intro e he
    by_cases hk : k = a.caller.key
    · subst hk
      rw [allow_own] at he
      rw [allow_result, ha rfl, decide_eq_false_iff_not] at hres
      cases he
      rcases counted_cases a.now (r.hits a.caller.key) with hc | ⟨e, hm, -, hc⟩
      · rw [hc] at hres
        omega
      · rw [hc]
        exact hr e hm
    · rw [allow_other r a.now hk] at he
      exact hr e (retained_eq_some he).1

/-- Of the calls of an address up to one that comes more than 30 s later, one is allowed. -/
theorem allowed_again {r : RateLimit}
    (h : Run (Steps RateLimit.attempt) RateLimit.new (p ++ a :: q ++ b :: r₀) r)
    (hs : InOrder (p ++ a :: q ++ b :: r₀)) (hk : b.caller.key = a.caller.key)
    (hlate : a.now + secs 30 < b.now) :
    ∃ x ∈ q ++ [b], x.caller.key = a.caller.key ∧ x.allowed = true := by
  by_contra hnone
  have hno : ∀ x ∈ q ++ [b], x.caller.key = a.caller.key → x.allowed = false := by
    intro x hx hxk
    by_contra hal
    exact hnone ⟨x, hx, hxk, Bool.eq_true_of_not_eq_false hal⟩
  obtain ⟨hno, hb⟩ := List.forall_mem_append.1 hno
  have hb := hb b List.mem_cons_self hk
  rw [List.append_assoc, List.cons_append, List.append_cons] at h hs
  obtain ⟨r₁, h₁, h₂⟩ := h.split
  obtain ⟨r₂, h₃, h₄⟩ := h₂.split
  -- the window of the address began at the first of the two calls or before
  have hbegan : ∀ e, r₁.hits a.caller.key = some e → e.2 ≤ a.now := by
    intro e he
    obtain ⟨⟨x, hx, hbegan⟩, -⟩ := earned_run h₁ hs.left _ e he
    rw [hbegan]
    rcases List.mem_append.1 hx with hx | hx
    · exact (List.pairwise_append.1 hs.left).2.2 x hx a List.mem_cons_self
    · rw [List.mem_singleton.1 hx]
  have hstay := window_stays h₃ hno hbegan
  cases h₄ with
  | cons hst _ =>
    obtain ⟨-, hres⟩ := attempt_eq_some hst
    rw [allow_result, hb, decide_eq_false_iff_not, hk] at hres
    rcases counted_cases b.now (r₂.hits a.caller.key) with hc | ⟨e, hm, hle, -⟩
    · rw [hc] at hres
      omega
    · have hold := hstay e hm
      omega

section
variable {K : Kscreen W} {H : HostState} {S : Serde} {g g' : Shared W}

theorem attempts_append (log log' : List (ι × Effect)) :
    attempts (log ++ log') = attempts log ++ attempts log' := List.filterMap_append

theorem attempts_map (i : ι) (es : List Effect) :
    attempts (es.map (Prod.mk i)) = es.filterMap Effect.attempt := List.filterMap_map

theorem Shared.perform_attempt (h : g.perform K x = some g') :
    Run (Steps RateLimit.attempt) g.rate x.attempt.toList g'.rate := by
  cases x with
  | allow addr now allowed =>
    obtain ⟨ha, h⟩ := Option.ite_none_right_eq_some.1 h
    cases h
    have hstep : g.rate.attempt ⟨addr, now, allowed⟩ = some (g.rate.allow addr now).1 := if_pos ha
    exact .single hstep
  | applyViewport | setScreen =>
    obtain ⟨-, h⟩ := Option.ite_none_right_eq_some.1 h
    cases h
    exact .nil _
  | _ =>
    cases h
    exact .nil _

theorem Shared.performs_attempts {es : List Effect}
    (h : es.foldlM (Shared.perform K) g = some g') :
    Run (Steps RateLimit.attempt) g.rate (es.filterMap Effect.attempt) g'.rate := by
  induction es generalizing g with
  | nil =>
    cases h
    exact .nil _
  | cons x es ih =>
    obtain ⟨g₁, h₁, h⟩ := Option.bind_eq_some_iff.1 (List.foldlM_cons.symm.trans h)
    have hx := Shared.perform_attempt h₁
    have hes := ih h
    cases ha : x.attempt with
    | none =>
      rw [ha] at hx
      rw [List.filterMap_cons_none ha]
      exact hx.append hes
    | some a =>
      rw [ha] at hx
      rw [List.filterMap_cons_some ha]
      exact hx.append hes

theorem attempts_run {ι : Type*} [DecidableEq ι] {addr : ι → IpAddr} {d : Display W}
    {es : List (HostEvent ι W)} {t : ((ι → IpAddr × Conn) × Shared W) × List (ι × Effect)}
    (h : Run (Steps (hostTrace K H S)) (hostStart addr d, []) es t) :
    Run (Steps RateLimit.attempt) RateLimit.new (attempts t.2) t.1.2.rate := by
  apply h.invariant
    (I := fun t => Run (Steps RateLimit.attempt) RateLimit.new (attempts t.2) t.1.2.rate)
  · intro t e u ht hst
    obtain ⟨s, hs, rfl⟩ := Option.map_eq_some_iff.1 hst
    rw [attempts_append]
    apply ht.append
    cases e with
    | world w =>
      cases hs
      exact .nil _
    | turn i e =>
      obtain ⟨c, es, g, hc, hg, rfl⟩ := hostStep_turn_cases hs
      rw [callsOf_turn hc, attempts_map]
      exact Shared.performs_attempts hg
  · exact .nil _

end

/-- Whatever sessions there are, an address is refused only once eight calls of it have been allowed
in the last 30 s; and of its calls up to one that comes more than 30 s after another, one is
allowed. -/
theorem lockout_fair {ι : Type*} [DecidableEq ι] (K : Kscreen W) (H : HostState) (S : Serde)
    (addr : ι → IpAddr) (d : Display W) (es : List (HostEvent ι W))
    (t : ((ι → IpAddr × Conn) × Shared W) × List (ι × Effect))
    (h : Run (Steps (hostTrace K H S)) (hostStart addr d, []) es t)
    (hclock : InOrder (attempts t.2)) :
    (∀ p a q, attempts t.2 = p ++ a :: q → a.allowed = false →
      ∃ since, a.now ≤ since + secs 30 ∧ 8 ≤ allowedSince a.caller.key since p) ∧
    ∀ p a q b r, attempts t.2 = p ++ a :: q ++ b :: r → b.caller.key = a.caller.key →
      a.now + secs 30 < b.now →
      ∃ x ∈ q ++ [b], x.caller.key = a.caller.key ∧ x.allowed = true := by
  have hrun := attempts_run h
  constructor
  · intro p a q hsplit ha
    rw [hsplit] at hrun hclock
    exact refused_after_eight hrun hclock ha
  · intro p a q b r hsplit hk hlate
    rw [hsplit] at hrun hclock
    exact allowed_again hrun hclock hk hlate

/-- One address presents a wrong ID in these sessions, all at once, and in a last one 31 s later. -/
def guesses : List (HostEvent (Fin 10) Panel) :=
  (List.finRange 10).flatMap fun i : Fin 10 =>
    [Event.arrive (writeFrame Proto.clientHello [2]), .read {},
      .next { allowed := i ≠ 8, now := if i = 9 then secs 31 else 0 }].map (.turn i)

theorem lockout_fair_guesses :
    ∃ t, Run (Steps (hostTrace Panel.kscreen sampleHost sampleSerde))
        (hostStart (fun _ => .v4 0) { world := (false, 1, 0) }, []) guesses t ∧
      (∃ since, 8 ≤ allowedSince 0 since ((attempts t.2).take 8)) ∧
      ∃ x ∈ (attempts t.2).drop 9, x.caller.key = 0 ∧ x.allowed = true := by
  have hrun : (guesses.foldlM (hostTrace Panel.kscreen sampleHost sampleSerde)
      (hostStart (fun _ => .v4 0) { world := (false, 1, 0) }, [])).map (fun t => attempts t.2) =
        some (List.replicate 8 ⟨.v4 0, 0, true⟩ ++
          [⟨.v4 0, 0, false⟩, ⟨.v4 0, secs 31, true⟩]) := by decide +kernel
  obtain ⟨t, ht, hlog⟩ := Option.map_eq_some_iff.1 hrun
  have h := run_steps_iff.2 ht
  obtain ⟨hfair, hagain⟩ := lockout_fair _ _ _ _ _ _ t h (by rw [hlog, InOrder]; decide)
  obtain ⟨since, -, height⟩ := hfair _ _ _ hlog rfl
  refine ⟨t, h, ⟨since, ?_⟩, ?_⟩
  · rw [hlog]
    exact height
  · rw [hlog]
    exact hagain (List.replicate 8 ⟨.v4 0, 0, true⟩) ⟨.v4 0, 0, false⟩ [] ⟨.v4 0, secs 31, true⟩ []
      hlog rfl (by decide)

end DdrdeskHost
