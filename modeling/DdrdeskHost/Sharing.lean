import DdrdeskHost.Cleanup

namespace DdrdeskHost
set_option autoImplicit true

def Phase.streams : Phase → Bool
  | .streaming _ => true
  | _ => false

/-- The session has left its loop and is yet to restore the display. -/
def Phase.leaving : Phase → Bool
  | .stopping | .restoring => true
  | _ => false

/-- The step breaks out of the streaming loop: the stream ends or is not a frame, the client says
GOODBYE, or a `VIDEO` frame cannot be written. -/
def Conn.leaves (c : Conn) : Event → Bool
  | .read _ =>
    match c.phase, c.fut.poll c.arrived with
    | .streaming _, .ready f _ => f.1 = Proto.goodbye
    | .streaming _, .failed _ => true
    | .streaming _, .pending _ => c.eof
    | _, _ => false
  | .recv a =>
    match c.phase with
    | .streaming _ => a.write ≠ .done
    | _ => false
  | _ => false

/-- The step starts the capture, and with it the streaming loop. -/
def Conn.enters (c : Conn) : Event → Bool
  | .next a =>
    match c.phase with
    | .connected .. => a.capture
    | _ => false
  | _ => false

/-- A session leaves its loop only when no other session streams, and enters it only when no other
session is about to restore the display. -/
def Alternates (s : (ι → IpAddr × Conn) × Shared W) : HostEvent ι W → Prop
  | .world _ => True
  | .turn i e => ∀ j, j ≠ i →
    ((s.1 i).2.leaves e = true → (s.1 j).2.phase.streams = false) ∧
      ((s.1 i).2.enters e = true → (s.1 j).2.phase.leaving = false)

instance [Fintype ι] [DecidableEq ι] (s : (ι → IpAddr × Conn) × Shared W) :
    ∀ e, Decidable (Alternates s e)
  | .world _ => inferInstanceAs (Decidable True)
  | .turn i _ => inferInstanceAs (Decidable (∀ j, j ≠ i → (_ → _) ∧ (_ → _)))

theorem dispatch_leaving (h : (dispatch S l f a).1.leaving = true) : f.1 = Proto.goodbye := by
  have hd := dispatches S l f a
  generalize (dispatch S l f a).1 = p, (dispatch S l f a).2 = es at hd h
  cases hd with
  | goodbye hf => exact hf
  | _ => cases h

theorem dispatch_goodbye (h : f.1 = Proto.goodbye) : (dispatch S l f a).1 = .stopping := by
  simp only [dispatch, h]
  rfl

theorem onHello_phase (H : HostState) (S : Serde) (f : Frame) :
    (onHello H S f).leaving = false ∧ (onHello H S f).streams = false := by
  rcases onHello_cases H S f with h | h | ⟨vp, h⟩ <;> rw [h] <;> exact ⟨rfl, rfl⟩

section
variable {H : HostState} {S : Serde} {addr : IpAddr} {c : Conn}

theorem nextPhase_leaving (h : nextPhase H S addr a q = some (p, es)) (hp : p.leaving = true) :
    q.leaving = true := by
  cases proceeds h with
  | stopped => rfl
  | _ => cases hp

theorem nextPhase_streams (h : nextPhase H S addr a q = some (p, es)) (hp : p.streams = true) :
    (∃ vp enc, q = .connected vp enc) ∧ a.capture = true := by
  cases proceeds h with
  | streaming hc => exact ⟨⟨_, _, rfl⟩, hc⟩
  | _ => cases hp

theorem Conn.Goes.leaving (h : c.Goes H S addr e p es) (hp : p.leaving = true) :
    c.phase.leaving = true ∨ c.leaves e = true := by
  cases h with
  | arrived | ended | pending => exact .inl hp
  | queued | gone => cases hp
  | @hello f rest a hh hf => cases hp.symm.trans (onHello_phase H S f).1
  | frame a hs hf =>
    apply Or.inr
    rw [Conn.leaves, hs, hf]
    exact decide_eq_true (dispatch_leaving hp)
  | left a hs hf =>
    apply Or.inr
    rw [Conn.leaves, hs]
    rcases hf with ⟨e, hf⟩ | ⟨⟨fut, hf⟩, he⟩
    · rw [hf]
    · rw [hf, he]
  | video a hs hq =>
    apply Or.inr
    rw [Conn.leaves, hs]
    cases hw : a.write with
    | done =>
      rw [onVideo, hw] at hp
      cases hp
    | failed n => rfl
  | next a h => exact .inl (nextPhase_leaving h hp)

theorem Conn.Goes.streams (h : c.Goes H S addr e p es) (hp : p.streams = true) :
    c.phase.streams = true ∨ c.enters e = true := by
  cases h with
  | arrived | ended | pending => exact .inl hp
  | @hello f rest a hh hf => cases hp.symm.trans (onHello_phase H S f).2
  | queued _ hs | frame _ hs | left _ hs | video _ hs => exact .inl (by rw [hs]; rfl)
  | gone => cases hp
  | next a h =>
    obtain ⟨⟨vp, enc, hq⟩, hc⟩ := nextPhase_streams h hp
    exact .inr (by rw [Conn.enters, hq]; exact hc)

theorem Conn.Goes.of_leaves (h : c.Goes H S addr e p es) (hl : c.leaves e = true) :
    p = .stopping := by
  cases h with
  | arrived | ended | queued | next => cases hl
  | pending a hne hf he =>
    rw [Conn.leaves, hf, he] at hl
    cases hp : c.phase <;> rw [hp] at hl <;> cases hl
  | hello a hp | gone a hp =>
    rw [Conn.leaves, hp] at hl
    cases hl
  | frame a hp hf =>
    rw [Conn.leaves, hp, hf] at hl
    exact dispatch_goodbye (of_decide_eq_true hl)
  | left => rfl
  | video a hp hq =>
    rw [Conn.leaves, hp] at hl
    rw [onVideo]
    cases hw : a.write with
    | done =>
      rw [hw] at hl
      cases hl
    | failed n => rfl

theorem Conn.Goes.of_enters (h : c.Goes H S addr e p es) (he : c.enters e = true) :
    p.streams = true := by
  cases h with
  | next a h =>
    cases hp : c.phase with
    | connected vp enc =>
      rw [Conn.enters, hp] at he
      have hc : a.capture = true := he
      rw [hp, nextPhase, if_pos hc] at h
      cases h
      rfl
    | _ =>
      rw [Conn.enters, hp] at he
      cases he
  | _ => cases he

end

/-- One of the two sessions is about to restore the display while the other one streams. -/
def Clash (p q : IpAddr × Conn) : Prop :=
  p.2.phase.leaving = true ∧ q.2.phase.streams = true

section
variable {ι : Type*} [DecidableEq ι] {K : Kscreen W} {H : HostState} {S : Serde}
  {s t : (ι → IpAddr × Conn) × Shared W}

theorem clash_hostStep {e : HostEvent ι W} (ha : Alternates s e)
    (hs : ∀ i j, i ≠ j → ¬Clash (s.1 i) (s.1 j)) (h : hostStep K H S s e = some t) :
    ∀ i j, i ≠ j → ¬Clash (t.1 i) (t.1 j) := by
  cases e with
  | world w =>
    cases h
    exact hs
  | turn i x =>
    have hturn : Interleave (fun p g x p' g' => True ∧ sessionStep K H S p g x = some (p', g'))
        s (i, x) t := Interleave.of_turn trivial h
    have hboth := Interleave.pairwise_keep (R := fun p q => ¬Clash p q ∧ ¬Clash q p)
      (fun p q h => h.symm) (fun j k hjk => ⟨hs j k hjk, hs k j hjk.symm⟩) hturn ?_
    · intro j k hjk
      exact (hboth j k hjk).1
    · intro j hj hR
      cases hturn with
      | turn hp =>
        obtain ⟨es, hes, -⟩ := sessionStep_eq_some hp.2
        have hgoes := Conn.goes hes
        simp only [Function.update_self]
        constructor
        · rintro ⟨hleave, hstream⟩
          rcases hgoes.leaving hleave with hl | hl
          · exact hR.1 ⟨hl, hstream⟩
          · rw [(ha j hj).1 hl] at hstream
            cases hstream
        · rintro ⟨hleave, hstream⟩
          rcases hgoes.streams hstream with hl | hl
          · exact hR.2 ⟨hleave, hl⟩
          · rw [(ha j hj).2 hl] at hleave
            cases hleave

theorem leaving_restores (K : Kscreen W) (H : HostState) (S : Serde) {i j : ι} (hij : i ≠ j)
    (hc : Clash (t.1 i) (t.1 j)) :
    ∃ es u, Run (Steps (hostStep K H S)) t es u ∧ (u.1 i).2.phase = .restoring ∧
      (u.1 j).2.phase.streams = true := by
  obtain ⟨hl, hstream⟩ := hc
  cases hp : (t.1 i).2.phase with
  | restoring => exact ⟨[], t, .nil t, hp, hstream⟩
  | stopping =>
    let p : IpAddr × Conn := ((t.1 i).1, { (t.1 i).2 with phase := .restoring })
    have hnext : nextPhase H S (t.1 i).1 {} (t.1 i).2.phase =
        some (.restoring, [.captureStop]) := by
      rw [hp]
      rfl
    have hstep : sessionStep K H S (t.1 i) t.2 (.next {}) = some (p, t.2) := by
      rw [sessionStep, Conn.step_next hnext]
      rfl
    have hi : (Function.update t.1 i p i).2.phase = .restoring := by
      simp only [Function.update_self, p]
    have hj : (Function.update t.1 i p j).2.phase.streams = true := by
      simpa only [Function.update_of_ne hij.symm] using hstream
    exact ⟨[.turn i (.next {})], _, .single (takeTurn_eq hstep), hi, hj⟩
  | _ =>
    rw [hp] at hl
    cases hl

/-- A step that does not alternate leads on to a restoration under a streaming session. -/
theorem clash_of_not_alternates {e : HostEvent ι W} (ha : ¬Alternates s e)
    (h : hostStep K H S s e = some t) : ∃ i j, i ≠ j ∧ Clash (t.1 i) (t.1 j) := by
  cases e with
  | world w => exact absurd trivial ha
  | turn i x =>
    obtain ⟨⟨p, g⟩, hs, rfl⟩ := Option.map_eq_some_iff.1 h
    obtain ⟨es, hes, -⟩ := sessionStep_eq_some hs
    have hgoes := Conn.goes hes
    simp only [Alternates, not_forall, not_and_or] at ha
    obtain ⟨j, hj, ⟨hl, hstream⟩ | ⟨he, hleave⟩⟩ := ha
    · refine ⟨i, j, hj.symm, ?_, ?_⟩
      · simp only [Function.update_self, hgoes.of_leaves hl, Phase.leaving]
      · simpa only [Function.update_of_ne hj, Bool.not_eq_false] using hstream
    · refine ⟨j, i, hj, ?_, ?_⟩
      · simpa only [Function.update_of_ne hj, Bool.not_eq_false] using hleave
      · simpa only [Function.update_self] using hgoes.of_enters he

end

/-- While the sessions alternate, the display is restored only when no other session streams; any
other step can be continued to a restoration under a streaming session. -/
theorem restore_alone {ι : Type*} [DecidableEq ι] (K : Kscreen W) (H : HostState) (S : Serde)
    (addr : ι → IpAddr) (d : Display W) :
    (∀ es s, Run (Guard Alternates (Steps (hostStep K H S))) (hostStart addr d) es s →
      ∀ i j, i ≠ j → (s.1 i).2.phase = .restoring → (s.1 j).2.phase.streams = false) ∧
    ∀ (s t : (ι → IpAddr × Conn) × Shared W) e, ¬Alternates s e → hostStep K H S s e = some t →
      ∃ es u i j, i ≠ j ∧ Run (Steps (hostStep K H S)) t es u ∧
        (u.1 i).2.phase = .restoring ∧ (u.1 j).2.phase.streams = true := by
  constructor
  · intro es s h i j hij hr
    have hclash : ∀ i j, i ≠ j → ¬Clash (s.1 i) (s.1 j) := by
      apply h.invariant (I := fun s => ∀ i j : ι, i ≠ j → ¬Clash (s.1 i) (s.1 j))
      · intro s e t hs hst
        exact clash_hostStep hst.1 hs hst.2
      · simp [hostStart, Clash, Phase.leaving]
    apply Bool.eq_false_iff.2
    intro hstream
    exact hclash i j hij ⟨by rw [hr]; rfl, hstream⟩
  · intro s t e ha h
    obtain ⟨i, j, hij, hc⟩ := clash_of_not_alternates ha h
    obtain ⟨es, u, hrun, hr, hstream⟩ := leaving_restores K H S hij hc
    exact ⟨es, u, i, j, hij, hrun, hr, hstream⟩

/-- Two clients from two addresses. -/
def twoClients (p : Panel) : (Bool → IpAddr × Conn) × Shared Panel :=
  hostStart (fun i => .v4 (if i then 2 else 1)) { world := p }

def turns (i : Bool) (es : List Event) : List (HostEvent Bool Panel) := es.map (.turn i)

/-- The second client connects after the first one has said GOODBYE. -/
theorem restore_alone_one_by_one :
    ∃ es s, Run (Steps (hostStep Panel.kscreen sampleHost sampleSerde))
        (twoClients (false, 1, 0)) es s ∧
      (s.1 true).2.phase = .restoring ∧ (s.1 false).2.phase.streams = false := by
  have hrun : ((turns false (connected ++ goodbye) ++
      turns true (connected ++ goodbye.take 3)).foldlM
        (guarded Alternates (hostStep Panel.kscreen sampleHost sampleSerde))
        (twoClients (false, 1, 0))).map (fun s => (s.1 true).2.phase) = some .restoring := by
    decide +kernel
  obtain ⟨s, hs, hp⟩ := Option.map_eq_some_iff.1 hrun
  have hg := run_guarded_iff.2 hs
  exact ⟨_, s, hg.of_guard, hp, (restore_alone Panel.kscreen sampleHost sampleSerde _ _).1 _ s hg
    true false (by decide) hp⟩

/-- One of two clients says GOODBYE. -/
theorem restore_not_alone :
    ¬∀ (W : Type) (K : Kscreen W) (H : HostState) (S : Serde) (addr : Bool → IpAddr)
      (d : Display W) es s, Run (Steps (hostStep K H S)) (hostStart addr d) es s →
        ∀ i j, i ≠ j → (s.1 i).2.phase = .restoring → (s.1 j).2.phase.streams = false := by
  intro h
  have hrun : ((turns false connected ++ turns true connected ++
      turns false (goodbye.take 3)).foldlM
        (hostStep Panel.kscreen sampleHost sampleSerde) (twoClients (false, 1, 0))).map
        (fun s => ((s.1 false).2.phase, (s.1 true).2.phase.streams)) = some (.restoring, true) := by
    decide +kernel
  obtain ⟨s, hs, hp⟩ := Option.map_eq_some_iff.1 hrun
  obtain ⟨hr, hstream⟩ := Prod.mk.inj hp
  have hfalse := h Panel Panel.kscreen sampleHost sampleSerde _ _ _ s (run_steps_iff.2 hs)
    false true (by decide) hr
  rw [hstream] at hfalse
  cases hfalse

end DdrdeskHost
