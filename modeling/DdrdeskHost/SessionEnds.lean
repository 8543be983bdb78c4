import DdrdeskHost.FirstFrame

namespace DdrdeskHost
set_option autoImplicit true

/-- The task goes on by itself: it reads, or makes the next call. -/
def Event.advances : Event → Bool
  | .read _ | .next _ => true
  | _ => false

/-- What the task writes gets through, and the recorder starts. -/
def Event.served : Event → Bool
  | .next a => a.write = .done && a.capture
  | _ => true

/-- The steps that a session has ahead of it at most, if it dispatches no more frames. -/
def Phase.ahead : Phase → Nat
  | .returned => 0
  | .refusing _ | .finishing => 1
  | .rejected | .disconnecting => 2
  | .restoring => 3
  | .stopping => 4
  | .streaming _ => 5
  | .connected .. => 6
  | .announced .. => 7
  | .greeted .. => 8
  | .sized .. => 9
  | .authenticated _ => 10
  | .hello => 11

def Conn.ahead (c : Conn) : Nat := c.unread.length + c.phase.ahead

section
variable {H : HostState} {S : Serde} {addr : IpAddr} {c c' : Conn} {es : List Effect}

theorem Proceeds.ahead (h : Proceeds H S addr a p p' es) : p'.ahead < p.ahead := by
  cases h <;> simp [Phase.ahead]

theorem Conn.step_inFlight (h : c.step H S addr e = some (c', es)) (hfl : c.fut.InFlight) :
    c'.fut.InFlight := by
  by_cases hp : c.phase = .hello
  · cases e with
    | arrive chunk | eof =>
      obtain ⟨-, h⟩ := Option.ite_none_left_eq_some.1 h
      cases h
      exact hfl
    | enqueue au | recv a | next a =>
      simp only [Conn.step, hp] at h
      cases h
    | read a =>
      have hspec := poll_spec hfl c.arrived
      simp only [Conn.step, hp] at h
      split at h
      · cases h
        exact Nat.succ_pos _
      · cases h
        exact hfl
      · next fut hpoll =>
        rw [hpoll] at hspec
        split at h
        · cases h
          exact hfl
        · cases h
          exact hspec.1
  · exact (Conn.step_read h hfl hp).1

theorem performs_dispatch (K : Kscreen W) (g : Shared W) (l : Loop) (f : Frame) :
    ∃ a g', (.dispatched f :: (dispatch S l f a).2).foldlM (Shared.perform K) g = some g' := by
  cases hs : S.uiScale f.2 with
  | none =>
    refine ⟨{}, g, ?_⟩
    have hd := dispatches S l f {}
    generalize (dispatch S l f {}).1 = p, (dispatch S l f {}).2 = es at hd ⊢
    cases hd with
    | uiScale hf hs' => cases hs.symm.trans hs'
    | _ => rfl
  | some s =>
    let d := applyUiScale K s.factor g.display
    refine ⟨{ screen := logicalSize K d.world }, ?_⟩
    have hd := dispatches S l f { screen := logicalSize K d.world }
    generalize (dispatch S l f { screen := logicalSize K d.world }).1 = p,
      (dispatch S l f { screen := logicalSize K d.world }).2 = es at hd ⊢
    cases hd with
    | uiScale hf hs' =>
      cases hs.symm.trans hs'
      refine ⟨{ g with display := d }, ?_⟩
      cases l.injector with
      | false => rfl
      | true => simp [Shared.perform, d]
    | _ => exact ⟨g, rfl⟩

/-- A session can go on until it has returned, in the loop once its client is gone. `Capture::stop`
is left out: it joins the reader, which may wait for room in the queue. -/
theorem Conn.enabled (K : Kscreen W) (g : Shared W)
    (heof : ∀ l, c.phase = .streaming l → c.eof = true) (hstop : c.phase ≠ .stopping)
    (hp : c.phase ≠ .returned) :
    ∃ e c' es g', Event.advances e = true ∧ Event.served e = true ∧
      c.step H S addr e = some (c', es) ∧ es.foldlM (Shared.perform K) g = some g' := by
  have hnext {a : Answer} {p : Phase} {es : List Effect}
      (hn : nextPhase H S addr a c.phase = some (p, es)) (hs : Event.served (.next a) = true)
      (hg : ∃ g', es.foldlM (Shared.perform K) g = some g') : ∃ e c' es g',
        Event.advances e = true ∧ Event.served e = true ∧
          c.step H S addr e = some (c', es) ∧ es.foldlM (Shared.perform K) g = some g' := by
    obtain ⟨g', hg⟩ := hg
    exact ⟨.next a, _, es, g', rfl, hs, Conn.step_next hn, hg⟩
  cases hq : c.phase with
  | returned => exact absurd hq hp
  | stopping => exact absurd hq hstop
  | hello =>
    obtain ⟨c', hc⟩ : ∃ c', c.step H S addr (.read {}) = some (c', []) :=
      Conn.read_enabled hq {}
    exact ⟨.read {}, c', [], g, rfl, rfl, hc, rfl⟩
  | rejected =>
    rw [hq] at hnext
    refine hnext (a := { allowed := (g.rate.allow addr 0).2 }) rfl rfl ?_
    exact ⟨{ g with rate := (g.rate.allow addr 0).1 }, by simp [Shared.perform]⟩
  | authenticated vp =>
    rw [hq] at hnext
    refine hnext (a := { enc := (applyViewport K vp g.display).2 }) rfl rfl ?_
    exact ⟨{ g with display := (applyViewport K vp g.display).1 }, by simp [Shared.perform]⟩
  | streaming l =>
    cases hpoll : c.fut.poll c.arrived with
    | ready f rest =>
      obtain ⟨a, g', hg⟩ := performs_dispatch (S := S) K g l f
      have hon : onFrame H S f a c.phase =
          some ((dispatch S l f a).1, .dispatched f :: (dispatch S l f a).2) := by
        rw [hq]
        rfl
      exact ⟨.read a, _, _, g', rfl, rfl, Conn.step_ready hpoll hon, hg⟩
    | failed e =>
      refine ⟨.read {}, { c with phase := .stopping }, [], g, rfl, rfl, ?_, rfl⟩
      simp only [Conn.step, hpoll, hq]
      rfl
    | pending fut =>
      refine ⟨.read {}, { c with phase := .stopping }, [], g, rfl, rfl, ?_, rfl⟩
      simp only [Conn.step, hpoll, hq, if_pos (heof l hq)]
      rfl
  | _ =>
    rw [hq] at hnext
    exact hnext (a := {}) rfl rfl ⟨_, rfl⟩

end

section
variable [DecidableEq ι] {K : Kscreen W} {H : HostState} {S : Serde}
  {s t : (ι → IpAddr × Conn) × Shared W} {e : HostEvent ι W}

/-- The task of the session takes the step by itself. -/
def HostEvent.advances (i : ι) : HostEvent ι W → Bool
  | .turn j e => j = i && e.advances
  | .world _ => false

theorem hostStep_session (h : hostStep K H S s e = some t) (i : ι) :
    (t.1 i = s.1 i ∧ e.advances i = false) ∨
      ∃ x es, e = .turn i x ∧ (s.1 i).2.step H S (s.1 i).1 x = some ((t.1 i).2, es) := by
  cases e with
  | world w =>
    cases h
    exact .inl ⟨rfl, rfl⟩
  | turn j x =>
    obtain ⟨c, es, g, hc, -, rfl⟩ := hostStep_turn_cases h
    by_cases hj : j = i
    · subst hj
      refine .inr ⟨x, es, rfl, ?_⟩
      simpa only [Function.update_self] using hc
    · exact .inl ⟨Function.update_of_ne (Ne.symm hj) _ _, by simp [HostEvent.advances, hj]⟩

end

end DdrdeskHost
