import DdrdeskHost.Auth
import DdrdeskHost.Host
import DdrdeskHost.Output
import DdrdeskHost.SessionStep
import Mathlib.Algebra.Order.BigOperators.Group.Finset

namespace DdrdeskHost
set_option autoImplicit true

/-- The calls that set the host up for a client and those that undo them. -/
inductive Mark
  | applyViewport
  | clientConnected
  | restore
  | clientDisconnected
  deriving DecidableEq

def Effect.mark : Effect → Option Mark
  | .applyViewport .. => some .applyViewport
  | .clientConnected => some .clientConnected
  | .restore => some .restore
  | .clientDisconnected => some .clientDisconnected
  | _ => none

def marks (es : List Effect) : List Mark := es.filterMap Effect.mark

/-- What was set up has been undone, the counter once. -/
def CleanedUp (es : List Effect) : Prop :=
  (.applyViewport ∈ marks es → .restore ∈ marks es) ∧
    (.clientConnected ∈ marks es → (marks es).count .clientDisconnected = 1)

instance (es : List Effect) : Decidable (CleanedUp es) :=
  inferInstanceAs (Decidable ((_ → _) ∧ (_ → _)))

/-- Neither a `VIEWPORT` message that is not valid nor a `PONG` that cannot be written. -/
def cleanFrame (S : Serde) (f : Frame) (a : Answer) : Bool :=
  if f.1 = Proto.viewport then (S.viewport f.2).isSome
  else if f.1 = Proto.ping ∧ 8 ≤ f.2.length then a.write = .done
  else true

/-- No call of the step fails whose error `run_session` passes on with `?`. -/
def Conn.clean (S : Serde) (c : Conn) : Event → Bool
  | .next a =>
    match c.phase with
    | .sized .. | .greeted .. => a.write = .done
    | .connected .. => a.capture
    | _ => true
  | .read a =>
    match c.phase, c.fut.poll c.arrived with
    | .streaming _, .ready f _ => cleanFrame S f a
    | _, _ => true
  | _ => true

/-- The marks of a session that has come this far; a session that has returned is left out. -/
def Phase.marks : Phase → List Mark
  | .hello | .rejected | .refusing _ | .authenticated _ | .returned => []
  | .sized .. | .greeted .. | .announced .. => [.applyViewport]
  | .connected .. | .streaming _ | .stopping | .restoring => [.applyViewport, .clientConnected]
  | .disconnecting => [.applyViewport, .clientConnected, .restore]
  | .finishing => [.applyViewport, .clientConnected, .restore, .clientDisconnected]

/-- What a step does to the phase and which marks it leaves, by whether it is clean. -/
inductive Moves : Bool → Phase → List Mark → Phase → Prop
  | stay (h : p'.marks = p.marks) (hne : p' ≠ .returned) : Moves true p [] p'
  | apply : Moves true (.authenticated vp) [.applyViewport] (.sized vp enc)
  | connect : Moves true (.announced vp enc) [.clientConnected] (.connected vp enc)
  | restore : Moves true .restoring [.restore] .disconnecting
  | disconnect : Moves true .disconnecting [.clientDisconnected] .finishing
  | finish : Moves true .finishing [] .returned
  | refuse (h : p.marks = []) : Moves true p [] .returned
  | abort (h : .applyViewport ∈ p.marks) (hr : .restore ∉ p.marks) : Moves false p [] .returned

theorem cleanFrame_other (hv : f.1 ≠ Proto.viewport) (hp : f.1 ≠ Proto.ping) :
    cleanFrame S f a = true := by
  rw [cleanFrame, if_neg hv, if_neg fun h => hp h.1]

theorem moves_dispatch (S : Serde) (l : Loop) (f : Frame) (a : Answer) :
    Moves (cleanFrame S f a) (.streaming l) (marks (.dispatched f :: (dispatch S l f a).2))
      (dispatch S l f a).1 := by
  have hstay : ∀ l', Moves true (.streaming l) [] (.streaming l') := by
    intro l'
    exact .stay rfl (by simp)
  have habort : Moves false (.streaming l) [] .returned :=
    .abort (.head _) (by simp [Phase.marks])
  have hd := dispatches S l f a
  generalize (dispatch S l f a).1 = p, (dispatch S l f a).2 = es at hd ⊢
  cases hd with
  | ignored hu hv hp =>
    have hping : ¬(f.1 = Proto.ping ∧ 8 ≤ f.2.length) := fun h => hp h.1 h.2
    rw [cleanFrame, if_neg hv, if_neg hping]
    exact hstay l
  | uiScale hf =>
    rw [cleanFrame_other (hf ▸ by decide) (hf ▸ by decide)]
    cases l.injector <;> exact hstay _
  | viewport hf hs =>
    rw [cleanFrame, if_pos hf, hs]
    exact hstay _
  | badViewport hf hs =>
    rw [cleanFrame, if_pos hf, hs]
    exact habort
  | input hf | bitrateHint hf =>
    rw [cleanFrame_other (hf ▸ by decide) (hf ▸ by decide)]
    exact hstay _
  | pong hf hlen hw =>
    rw [cleanFrame, if_neg (hf ▸ by decide), if_pos ⟨hf, hlen⟩, hw]
    exact hstay l
  | pongFailed hf hlen hw =>
    rw [cleanFrame, if_neg (hf ▸ by decide), if_pos ⟨hf, hlen⟩, hw]
    exact habort
  | goodbye hf =>
    rw [cleanFrame_other (hf ▸ by decide) (hf ▸ by decide)]
    exact .stay rfl (by simp)

theorem moves_onHello (H : HostState) (S : Serde) (f : Frame) :
    Moves true .hello [] (onHello H S f) := by
  rcases onHello_cases H S f with h | h | ⟨vp, h⟩
  · rw [h]
    exact .refuse rfl
  · rw [h]
    exact .stay rfl (by simp)
  · rw [h]
    exact .stay rfl (by simp)

theorem moves_nextPhase {c : Conn} (h : nextPhase H S addr a c.phase = some (p', es)) :
    Moves (c.clean S (.next a)) c.phase (marks es) p' := by
  rw [Conn.clean]
  generalize c.phase = p at h ⊢
  cases proceeds h with
  | limited | stopped => exact .stay rfl (by simp)
  | refused => exact .refuse rfl
  | sized => exact .apply
  | greeted hw | announced hw =>
    simp only [hw]
    exact .stay rfl (by simp)
  | notGreeted hw | notAnnounced hw =>
    simp only [hw]
    exact .abort (.head _) (by simp [Phase.marks])
  | connected => exact .connect
  | streaming hc =>
    simp only [hc]
    exact .stay rfl (by simp)
  | notStreaming hc =>
    simp only [hc]
    exact .abort (.head _) (by simp [Phase.marks])
  | restored => exact .restore
  | disconnected => exact .disconnect
  | finished => exact .finish

theorem Conn.Goes.moves {c : Conn} (h : c.Goes H S addr e p es) :
    Moves (c.clean S e) c.phase (marks es) p := by
  cases h with
  | arrived chunk hne => exact .stay rfl hne
  | ended hne => exact .stay rfl hne
  | pending a hne hf =>
    have hclean : c.clean S (.read a) = true := by
      cases hp : c.phase <;> simp only [Conn.clean, hp, hf]
    rw [hclean]
    exact .stay rfl hne
  | queued au hp =>
    rw [hp]
    exact .stay rfl (by simp)
  | hello a hp hf =>
    rw [Conn.clean, hp]
    exact moves_onHello H S _
  | frame a hp hf =>
    rw [Conn.clean, hp, hf]
    exact moves_dispatch S _ _ a
  | gone a hp =>
    rw [Conn.clean, hp]
    exact .refuse rfl
  | left a hp hf =>
    rw [Conn.clean, hp]
    rcases hf with ⟨e, hf⟩ | ⟨⟨fut, hf⟩, -⟩ <;> rw [hf] <;> exact .stay rfl (by simp)
  | video a hp hq =>
    rw [hp, onVideo]
    cases a.write <;> exact .stay rfl (by simp)
  | next a h => exact moves_nextPhase h

/-- A session whose steps were all clean: its marks are those of its phase, and all of them or
none once it has returned. -/
def Tidy (t : Conn × List Effect) : Prop :=
  if t.1.phase = .returned then marks t.2 = [] ∨ marks t.2 = Phase.finishing.marks
  else marks t.2 = t.1.phase.marks

/-- A session that an error ended after the display was changed. -/
def Aborted (t : Conn × List Effect) : Prop :=
  t.1.phase = .returned ∧ .applyViewport ∈ marks t.2 ∧ .restore ∉ marks t.2

theorem marks_append (es es' : List Effect) : marks (es ++ es') = marks es ++ marks es' :=
  List.filterMap_append

/-- A clean step keeps a session tidy, and any other ends it without cleaning up. -/
theorem Tidy.step {t t' : Conn × List Effect} (ht : Tidy t)
    (h : Conn.trace H S addr t e = some t') :
    (t.1.clean S e = true ∧ Tidy t') ∨ (t.1.clean S e = false ∧ Aborted t') := by
  obtain ⟨⟨c', es⟩, hs, rfl⟩ := Option.map_eq_some_iff.1 h
  have hgoes := Conn.goes hs
  rw [Tidy, if_neg hgoes.running] at ht
  have hm := hgoes.moves
  rw [Tidy, Aborted, marks_append, ht]
  simp only
  generalize t.1.clean S e = b at hm ⊢
  generalize t.1.phase = p at hm ⊢
  generalize c'.phase = p' at hm ⊢
  generalize marks es = ms at hm ⊢
  cases hm with
  | stay hmarks hne => exact .inl ⟨rfl, by rw [if_neg hne, hmarks, List.append_nil]⟩
  | apply => exact .inl ⟨rfl, rfl⟩
  | connect => exact .inl ⟨rfl, rfl⟩
  | restore => exact .inl ⟨rfl, rfl⟩
  | disconnect => exact .inl ⟨rfl, rfl⟩
  | finish => exact .inl ⟨rfl, .inr rfl⟩
  | refuse h => exact .inl ⟨rfl, .inl (by rw [h, List.append_nil])⟩
  | abort h hr => exact .inr ⟨rfl, rfl, by rwa [List.append_nil], by rwa [List.append_nil]⟩

theorem Tidy.run {t t' : Conn × List Effect} (ht : Tidy t)
    (h : Run (Steps (Conn.trace H S addr)) t es t') :
    (Run (Guard (fun t e => t.1.clean S e = true) (Steps (Conn.trace H S addr))) t es t' ∧
      Tidy t') ∨ Aborted t' := by
  induction h with
  | nil t => exact .inl ⟨.nil t, ht⟩
  | cons hs hr ih =>
    rcases ht.step hs with ⟨hc, ht'⟩ | ⟨-, ha⟩
    · rcases ih ht' with ⟨hg, ht''⟩ | ha
      · exact .inl ⟨.cons ⟨hc, hs⟩ hg, ht''⟩
      · exact .inr ha
    · cases hr with
      | nil => exact .inr ha
      | cons hs' _ =>
        obtain ⟨r, hr, -⟩ := Option.map_eq_some_iff.1 hs'
        exact absurd ha.1 (Conn.goes hr).running

theorem Tidy.cleanedUp {t : Conn × List Effect} (ht : Tidy t) (hp : t.1.phase = .returned) :
    CleanedUp t.2 := by
  rw [Tidy, if_pos hp] at ht
  rw [CleanedUp]
  rcases ht with h | h <;> rw [h] <;> decide

theorem Aborted.not_cleanedUp {t : Conn × List Effect} (ha : Aborted t) : ¬CleanedUp t.2 := by
  intro h
  exact ha.2.2 (h.1 ha.2.1)

theorem cleanedUp_iff {t : Conn × List Effect}
    (h : Run (Steps (Conn.trace H S addr)) ({}, []) es t) (hp : t.1.phase = .returned) :
    CleanedUp t.2 ↔
      Run (Guard (fun t e => t.1.clean S e = true) (Steps (Conn.trace H S addr)))
        ({}, []) es t := by
  have hstart : Tidy ({}, []) := by
    rw [Tidy, if_neg (by simp)]
    rfl
  constructor
  · intro hc
    rcases hstart.run h with ⟨hg, -⟩ | ha
    · exact hg
    · exact absurd hc ha.not_cleanedUp
  · intro hg
    have htidy : Tidy t := by
      apply hg.invariant ?_ hstart
      intro t e t' ht hst
      rcases ht.step hst.2 with ⟨-, ht'⟩ | ⟨hc, -⟩
      · exact ht'
      · rw [hst.1] at hc
        cases hc
    exact htidy.cleanedUp hp

/-- A step's calls on the counter. -/
def Mark.count : Mark → Nat → Nat
  | .clientConnected, n => DdrdeskHost.clientConnected n
  | .clientDisconnected, n => DdrdeskHost.clientDisconnected n
  | _, n => n

theorem perform_clients {K : Kscreen W} (h : Shared.perform K g ef = some g') :
    g'.clients = (marks [ef]).foldl (fun n m => m.count n) g.clients := by
  cases ef with
  | allow | applyViewport | setScreen =>
    obtain ⟨-, h⟩ := Option.ite_none_right_eq_some.1 h
    cases h
    rfl
  | _ =>
    cases h
    rfl

theorem performs_clients {K : Kscreen W} (h : es.foldlM (Shared.perform K) g = some g') :
    g'.clients = (marks es).foldl (fun n m => m.count n) g.clients := by
  induction es generalizing g with
  | nil =>
    cases h
    rfl
  | cons ef es ih =>
    rw [List.foldlM_cons] at h
    obtain ⟨g₁, h₁, h₂⟩ := Option.bind_eq_some_iff.1 h
    have hsplit : marks (ef :: es) = marks [ef] ++ marks es := marks_append [ef] es
    rw [hsplit, List.foldl_append, ← perform_clients h₁]
    exact ih h₂

/-- What a session in this phase adds to the counter. -/
def Phase.counted (p : Phase) : Nat :=
  p.marks.count .clientConnected - p.marks.count .clientDisconnected

theorem Moves.counted {n : Nat} (h : Moves true p ms p') (hn : p.counted ≤ n)
    (hwrap : .clientConnected ∈ ms → n + 1 < 2 ^ 32) :
    ms.foldl (fun n m => m.count n) n + p.counted = n + p'.counted := by
  cases h with
  | stay hmarks =>
    have hc : p'.counted = p.counted := by rw [Phase.counted, Phase.counted, hmarks]
    rw [hc, List.foldl_nil]
  | apply => rfl
  | connect =>
    have hmod : clientConnected n = n + 1 := Nat.mod_eq_of_lt (hwrap (.head _))
    exact hmod
  | restore => rfl
  | disconnect =>
    have hsub : clientDisconnected n + 1 = n := Nat.sub_add_cancel hn
    exact hsub
  | finish => rfl
  | refuse hmarks =>
    have hc : p.counted = 0 := by rw [Phase.counted, hmarks]; rfl
    rw [hc, List.foldl_nil]
    rfl

theorem Moves.announced (h : Moves b p ms p') (hm : .clientConnected ∈ ms) :
    ∃ vp enc, p = .announced vp enc := by
  cases h with
  | connect => exact ⟨_, _, rfl⟩
  | stay | finish | refuse | abort => cases hm
  | apply | restore | disconnect =>
    rw [List.mem_singleton] at hm
    cases hm

theorem Conn.Goes.connects {c : Conn} (h : c.Goes H S addr e p es)
    (hm : .clientConnected ∈ marks es) : ∃ vp enc a, c.phase = .announced vp enc ∧ e = .next a := by
  obtain ⟨vp, enc, hp⟩ := h.moves.announced hm
  cases h with
  | next a h => exact ⟨vp, enc, a, hp, rfl⟩
  | arrived | ended | pending => cases hm
  | queued _ h | hello _ h | frame _ h | gone _ h | left _ h | video _ h => cases hp.symm.trans h

/-- The step is clean, and the counter does not wrap around. -/
def turnClean (S : Serde) (p : IpAddr × Conn) (g : Shared W) (e : Event) : Bool :=
  p.2.clean S e &&
    match p.2.phase, e with
    | .announced .., .next _ => g.clients + 1 < 2 ^ 32
    | _, _ => true

def hostClean (S : Serde) (s : (ι → IpAddr × Conn) × Shared W) : HostEvent ι W → Bool
  | .world _ => true
  | .turn i e => turnClean S (s.1 i) s.2 e

def Phase.pastConnected : Phase → Bool
  | .connected .. | .streaming _ | .stopping | .restoring | .disconnecting | .finishing => true
  | _ => false

def Phase.teardown : Phase → Bool
  | .stopping | .restoring | .disconnecting | .finishing => true
  | _ => false

theorem Phase.counted_eq {p : Phase} (h : p.teardown = false) :
    p.counted = if p.pastConnected = true then 1 else 0 := by
  cases p with
  | stopping | restoring | disconnecting | finishing => cases h
  | _ => rfl

section
variable {K : Kscreen W} {H : HostState} {S : Serde} [Fintype ι] [DecidableEq ι]
  {s t : (ι → IpAddr × Conn) × Shared W}

theorem clients_hostStep {e : HostEvent ι W} (hc : hostClean S s e = true)
    (hs : s.2.clients = ∑ i, (s.1 i).2.phase.counted) (h : hostStep K H S s e = some t) :
    t.2.clients = ∑ i, (t.1 i).2.phase.counted := by
  cases e with
  | world w =>
    cases h
    exact hs
  | turn i e =>
    have hturn : Interleave (fun p g x p' g' => turnClean S p g x = true ∧
        sessionStep K H S p g x = some (p', g')) s (i, e) t := Interleave.of_turn hc h
    apply Interleave.sum_keep (fun p => p.2.phase.counted) Shared.clients ?_ hs hturn
    rintro c j g x p' g' rfl ⟨hc, hstep⟩
    obtain ⟨es, hes, hperform⟩ := sessionStep_eq_some hstep
    obtain ⟨hclean, hroom⟩ := Bool.and_eq_true_iff.1 (turnClean.eq_def S (c j) g x ▸ hc)
    have hgoes := Conn.goes hes
    have hmoves := hgoes.moves
    rw [hclean] at hmoves
    rw [performs_clients hperform]
    apply hmoves.counted
    · rw [hs]
      exact Finset.single_le_sum (f := fun i => (c i).2.phase.counted)
        (fun i _ => Nat.zero_le _) (Finset.mem_univ j)
    · intro hm
      obtain ⟨vp, enc, a, hp, rfl⟩ := hgoes.connects hm
      rw [hp] at hroom
      exact of_decide_eq_true hroom

theorem clients_run {addr : ι → IpAddr} {d : Display W}
    (h : Run (Guard (fun s e => hostClean S s e = true) (Steps (hostStep K H S)))
      (hostStart addr d) es s) : s.2.clients = ∑ i, (s.1 i).2.phase.counted := by
  apply h.invariant (I := fun s => s.2.clients = ∑ i, (s.1 i).2.phase.counted)
  · intro s e t hs hst
    exact clients_hostStep hst.1 hs hst.2
  · exact (Finset.sum_eq_zero fun i _ => rfl).symm

end

/-- A session cleans up exactly when none of its calls fails with an error that `run_session`
passes on; where that holds of all sessions, the counter is the number of those connected. -/
theorem sessions_clean_up (K : Kscreen W) (H : HostState) (S : Serde) [Fintype ι] [DecidableEq ι]
    (addr : ι → IpAddr) (d : Display W) :
    (∀ a es t, Run (Steps (Conn.trace H S a)) ({}, []) es t → t.1.phase = .returned →
      (CleanedUp t.2 ↔ Run (Guard (fun t e => t.1.clean S e = true) (Steps (Conn.trace H S a)))
        ({}, []) es t)) ∧
    ∀ es s, Run (Guard (fun s e => hostClean S s e = true) (Steps (hostStep K H S)))
        (hostStart addr d) es s →
      (∀ i, (s.1 i).2.phase.teardown = false) →
        s.2.clients = (Finset.univ.filter fun i => (s.1 i).2.phase.pastConnected = true).card := by
  constructor
  · intro a es t h hp
    exact cleanedUp_iff h hp
  · intro es s h ht
    rw [clients_run h, Finset.card_filter]
    apply Finset.sum_congr rfl
    intro i _
    exact Phase.counted_eq (ht i)

/-- A client with the host's ID, up to the session's loop. -/
def connected : List Event :=
  [.arrive (writeFrame Proto.clientHello [1]), .read {}, .next {}, .next {}, .next {}, .next {},
    .next {}]

/-- The client says GOODBYE, and the session runs to its end. -/
def goodbye : List Event :=
  [.arrive (writeFrame Proto.goodbye []), .read {}, .next {}, .next {}, .next {}, .next {}]

theorem sessions_clean_up_goodbye :
    ∃ es t, Run (Steps (Conn.trace sampleHost sampleSerde (.v4 0))) ({}, []) es t ∧
      t.1.phase = .returned ∧ CleanedUp t.2 := by
  have hrun : ((connected ++ goodbye).foldlM (guarded (fun t e => t.1.clean sampleSerde e)
      (Conn.trace sampleHost sampleSerde (.v4 0))) ({}, [])).map (fun t => t.1.phase) =
        some .returned := by decide +kernel
  obtain ⟨t, ht, hp⟩ := Option.map_eq_some_iff.1 hrun
  have hg := run_guarded_iff.2 ht
  exact ⟨_, t, hg.of_guard, hp, ((sessions_clean_up Panel.kscreen sampleHost sampleSerde
    (fun _ : Unit => .v4 0) { world := (false, 1, 0) }).1 (.v4 0) _ t hg.of_guard hp).2 hg⟩

def badViewport : List Event := [.arrive (writeFrame Proto.viewport [0x7b]), .read {}]

/-- A VIEWPORT message that is not valid JSON ends the session at once. -/
theorem session_not_cleaned_up :
    ¬∀ (H : HostState) (S : Serde) (addr : IpAddr) es t,
      Run (Steps (Conn.trace H S addr)) ({}, []) es t → t.1.phase = .returned →
        CleanedUp t.2 := by
  intro h
  have hrun : ((connected ++ badViewport).foldlM
      (Conn.trace sampleHost sampleSerde (.v4 0)) ({}, [])).map
        (fun t => (t.1.phase, marks t.2)) =
      some (.returned, [.applyViewport, .clientConnected]) := by decide +kernel
  obtain ⟨t, ht, hp⟩ := Option.map_eq_some_iff.1 hrun
  obtain ⟨hp, hm⟩ := Prod.mk.inj hp
  have hclean := h sampleHost sampleSerde (.v4 0) _ t (run_steps_iff.2 ht) hp
  rw [CleanedUp, hm] at hclean
  exact absurd hclean (by decide)

end DdrdeskHost
