import DdrdeskHost.DisplayCalls

namespace DdrdeskHost
set_option autoImplicit true

/-- In one life of the daemon, a task takes a step or the user sets the output. -/
inductive OutputEvent (ι : Type*) (W : Type)
  | call (i : Option ι) (e : CallEvent)
  | user (w : W)

def outputStep [DecidableEq ι] (K : Kscreen W) (s : (Option ι → Call) × Display W) :
    OutputEvent ι W → Option ((Option ι → Call) × Display W)
  | .call i e => takeTurn (Call.step K) s (i, e)
  | .user w => some (s.1, { s.2 with world := w })

/-- What the user last set the output to. -/
def lastSet (w : W) (es : List (OutputEvent ι W)) : W :=
  es.foldl (fun w e => match e with
    | .call .. => w
    | .user w' => w') w

theorem lastSet_append (w : W) (es : List (OutputEvent ι W)) (e : OutputEvent ι W) :
    lastSet w (es ++ [e]) = match e with
      | .call .. => lastSet w es
      | .user w' => w' := by
  rw [lastSet, List.foldl_append]
  rfl

/-- The runs of a daemon that finds the output and the file so. -/
abbrev Life [DecidableEq ι] (K : Kscreen W) (w : W) (file : Option SavedOutput) :
    List (OutputEvent ι W) → (Option ι → Call) × Display W → Prop :=
  Run (Steps (outputStep K)) (tasks, { world := w, file := file })

/-- The event is one of the run, and comes in this state. -/
def Takes [DecidableEq ι] (K : Kscreen W) (w : W) (file : Option SavedOutput)
    (es : List (OutputEvent ι W)) (v : (Option ι → Call) × Display W)
    (e : OutputEvent ι W) : Prop :=
  ∃ p q, es = p ++ e :: q ∧ Life K w file p v

/-- The task's next step sets the output. -/
def Call.changes : Call → Bool
  | .change _ | .restoring _ => true
  | _ => false

/-- A session sets the output. -/
def changes (s : (Option ι → Call) × Display W) : OutputEvent ι W → Bool
  | .call (some i) _ => (s.1 (some i)).changes
  | _ => false

/-- A task has listed the output so. Wherever a session had set it before, that task was already
past its look at `SAVED`; where none had, the output was as the user last set it. -/
def Listed [DecidableEq ι] (K : Kscreen W) (config : W → SavedOutput) (w : W)
    (file : Option SavedOutput) (es : List (OutputEvent ι W)) (s : SavedOutput) : Prop :=
  ∃ p i q u c, es = p ++ .call i .next :: q ∧ Life K w file p u ∧ u.1 i = .save c ∧
    config u.2.world = s ∧
    (∀ v e, Takes K w file p v e → changes v e = true → v.1 i = .save c) ∧
    ((∀ v e, Takes K w file p v e → changes v e = false) → u.2.world = lastSet w p)

/-- The main task has found nothing in `SAVED`, no session having set the output, and this in the
file, as an earlier daemon left it. -/
def Found [DecidableEq ι] (K : Kscreen W) (w : W) (file : Option SavedOutput)
    (es : List (OutputEvent ι W)) (s : SavedOutput) : Prop :=
  ∃ p q u, es = p ++ .call none .next :: q ∧ Life K w file p u ∧ u.1 none = .leaving ∧
    u.2.saved = none ∧ (∀ v e, Takes K w file p v e → changes v e = false) ∧ file = some s

/-- The main task's part of the calls. -/
def Call.main : Call → Bool
  | .serving | .leaving | .restoring _ | .gone => true
  | _ => false

/-- A session that has not saved the output yet. -/
def Call.first : Call → Bool
  | .away | .viewport _ | .check _ | .save _ | .persist .. | .writing .. | .store .. => true
  | _ => false

theorem Call.first_of_changes {c : Call} (h : c.changes = true) : c.first = false := by
  cases c with
  | change | restoring => rfl
  | _ => cases h

/-- Where the configurations that a task carries come from. -/
def Call.From (listed found : SavedOutput → Prop) : Call → Prop
  | .persist _ s | .writing _ s _ | .store _ s => listed s
  | .restoring s => listed s ∨ found s
  | _ => True

theorem Call.From.mono {c : Call} {listed listed' found found' : SavedOutput → Prop}
    (h : c.From listed found) (hl : ∀ s, listed s → listed' s) (hf : ∀ s, found s → found' s) :
    c.From listed' found' := by
  cases c with
  | persist | writing | store => exact hl _ h
  | restoring => exact h.imp (hl _) (hf _)
  | _ => trivial

section
variable {K : Kscreen W} {config : W → SavedOutput} {c c' : Call} {d d' : Display W}

theorem Call.Moves.isSome (h : Moves K config d c c' d') (hs : d.saved.isSome = true) :
    d'.saved.isSome = true := by
  cases h with
  | store => rfl
  | change ch => rwa [(Change.run_saved K ch d).1]
  | _ => exact hs

theorem Call.Moves.to_save (h : Moves K config d c (.save ch) d') : d.saved = none := by
  cases h with
  | unsaved _ hs => exact hs

theorem Call.Moves.main (h : Moves K config d c c' d') (hc : c.main = true) : c'.main = true := by
  cases h with
  | stop | nothing | fromSaved | fromFile | restoring => rfl
  | _ => cases hc

theorem Call.Moves.main_world (h : Moves K config d c c' d') (hc : c.main = true)
    (hgone : c' ≠ .gone) : d'.world = d.world := by
  cases h with
  | change => cases hc
  | restoring => exact absurd rfl hgone
  | _ => rfl

theorem Call.Moves.first (h : Moves K config d c c' d')
    (hc : c.first = true ∨ d.saved.isSome = true) : c'.first = true ∨ d'.saved.isSome = true := by
  cases h with
  | connect | viewport | uiScale | unsaved | save | persist | writing => exact .inl rfl
  | store => exact .inr rfl
  | saved ch s hs => exact .inr (by rw [hs]; rfl)
  | change ch =>
    rw [(Change.run_saved K ch d).1]
    exact .inr (hc.resolve_left (by simp [Call.first]))
  | _ => exact .inr (hc.resolve_left (by simp [Call.first]))

theorem Call.Moves.world (h : Moves K config d c c' d') (hc : c.changes = false) :
    d'.world = d.world := by
  cases h with
  | change | restoring => cases hc
  | _ => rfl

/-- What is saved, written and restored has been listed or found. -/
theorem Call.Moves.from {listed found : SavedOutput → Prop} {old : Option SavedOutput}
    (h : Moves K config d c c' d') (hsaved : ∀ s ∈ d.saved, listed s)
    (hfile : ∀ s ∈ d.file, listed s ∨ s ∈ old) (hc : c.From listed found)
    (hlist : ∀ ch, c = .save ch → listed (config d.world))
    (hfind : c = .leaving → d.saved = none → ∀ s ∈ old, found s) :
    (∀ s ∈ d'.saved, listed s) ∧ (∀ s ∈ d'.file, listed s ∨ s ∈ old) ∧
      c'.From listed found := by
  cases h with
  | save ch => exact ⟨hsaved, hfile, hlist ch rfl⟩
  | persist => exact ⟨hsaved, by simp, hc⟩
  | writing ch s file =>
    have hnew : ∀ s' ∈ some s, listed s' ∨ s' ∈ old := fun s' hs' => .inl (Option.some.inj hs' ▸ hc)
    exact ⟨hsaved, hnew, hc⟩
  | store ch s =>
    have hnew : ∀ s' ∈ some s, listed s' := fun s' hs' => Option.some.inj hs' ▸ hc
    exact ⟨hnew, hfile, trivial⟩
  | change ch =>
    obtain ⟨hs, hf⟩ := Change.run_saved K ch d
    rw [hs, hf]
    exact ⟨hsaved, hfile, trivial⟩
  | fromSaved s hs => exact ⟨hsaved, hfile, .inl (hsaved s hs)⟩
  | fromFile s hs hf => exact ⟨hsaved, hfile, (hfile s hf).imp_right (hfind rfl hs s)⟩
  | _ => exact ⟨hsaved, hfile, trivial⟩

end

section
variable {ι : Type*} [DecidableEq ι] {K : Kscreen W} {config : W → SavedOutput} {w : W}
  {file : Option SavedOutput} {es : List (OutputEvent ι W)}
  {t t' v u : (Option ι → Call) × Display W}

theorem Takes.append (h : Takes K w file es v e) (es' : List (OutputEvent ι W)) :
    Takes K w file (es ++ es') v e := by
  obtain ⟨p, q, rfl, hv⟩ := h
  exact ⟨p, q ++ es', by rw [List.append_assoc, List.cons_append], hv⟩

theorem Listed.append (h : Listed K config w file es s) (es' : List (OutputEvent ι W)) :
    Listed K config w file (es ++ es') s := by
  obtain ⟨p, i, q, u, c, rfl, hu⟩ := h
  exact ⟨p, i, q ++ es', u, c, by rw [List.append_assoc, List.cons_append], hu⟩

theorem Found.append (h : Found K w file es s) (es' : List (OutputEvent ι W)) :
    Found K w file (es ++ es') s := by
  obtain ⟨p, q, u, rfl, hu⟩ := h
  exact ⟨p, q ++ es', u, by rw [List.append_assoc, List.cons_append], hu⟩

theorem Takes.run (h : Takes K w file es v e) (ht : Life K w file es t) :
    ∃ p q, es = p ++ e :: q ∧ Life K w file p v ∧ Run (Steps (outputStep K)) v (e :: q) t := by
  obtain ⟨p, q, rfl, hv⟩ := h
  obtain ⟨v', hv', hrest⟩ := ht.split
  rw [run_steps_unique hv' hv] at hrest
  exact ⟨p, q, rfl, hv, hrest⟩

variable (L : OneOutput K config) (hw : FileWrites K)
include L hw

theorem outputStep_cases (h : outputStep K t e = some t') :
    (∃ w', e = .user w' ∧ t' = (t.1, { t.2 with world := w' })) ∨
      ∃ i x c' d', e = .call i x ∧ Call.step K (t.1 i) t.2 x = some (c', d') ∧
        Call.Moves K config t.2 (t.1 i) c' d' ∧ t' = (Function.update t.1 i c', d') := by
  cases e with
  | user w' =>
    cases h
    exact .inl ⟨w', rfl, rfl⟩
  | call i x =>
    obtain ⟨⟨c', d'⟩, hstep, rfl⟩ := Option.map_eq_some_iff.1 h
    exact .inr ⟨i, x, c', d', rfl, hstep, Call.moves L hw hstep, rfl⟩

theorem outputStep_isSome (h : outputStep K t e = some t') (hs : t.2.saved.isSome = true) :
    t'.2.saved.isSome = true := by
  obtain ⟨w', -, rfl⟩ | ⟨i, x, c', d', -, -, hm, rfl⟩ := outputStep_cases L hw h
  · exact hs
  · exact hm.isSome hs

theorem life_calls (h : Life K w file es t) :
    (t.1 none).main = true ∧
      ∀ i, (t.1 (some i)).first = true ∨ t.2.saved.isSome = true := by
  apply h.invariant (I := fun t => (t.1 none).main = true ∧
    ∀ i : ι, (t.1 (some i)).first = true ∨ t.2.saved.isSome = true)
  · rintro s e s' ⟨hmain, hsessions⟩ hst
    have hkeep := outputStep_isSome L hw hst
    obtain ⟨w', -, rfl⟩ | ⟨i, x, c', d', -, -, hm, rfl⟩ := outputStep_cases L hw hst
    · exact ⟨hmain, hsessions⟩
    · constructor
      · by_cases hi : none = i
        · subst hi
          simpa only [Function.update_self] using hm.main hmain
        · simpa only [Function.update_of_ne hi] using hmain
      · intro j
        by_cases hi : some j = i
        · subst hi
          simpa only [Function.update_self] using hm.first (hsessions j)
        · simpa only [Function.update_of_ne hi] using (hsessions j).imp_right hkeep
  · exact ⟨rfl, fun _ => .inl rfl⟩

theorem Takes.isSome (h : Takes K w file es v e) (hc : changes v e = true) :
    v.2.saved.isSome = true := by
  obtain ⟨p, q, -, hv⟩ := h
  cases e with
  | user => cases hc
  | call i x =>
    cases i with
    | none => cases hc
    | some i =>
      have hc : (v.1 (some i)).changes = true := hc
      apply ((life_calls L hw hv).2 i).resolve_left
      rw [Call.first_of_changes hc]
      simp

theorem no_changes (h : Life K w file es t) (hs : t.2.saved = none) :
    ∀ v e, Takes K w file es v e → changes v e = false := by
  intro v e hv
  rw [Bool.eq_false_iff]
  intro hc
  obtain ⟨p, q, rfl, -, hrest⟩ := hv.run h
  have hsome : t.2.saved.isSome = true :=
    hrest.invariant (I := fun s => s.2.saved.isSome = true)
      (fun _ _ _ hs hst => outputStep_isSome L hw hst hs) (hv.isSome L hw hc)
  rw [hs] at hsome
  cases hsome

theorem save_before (h : Run (Steps (outputStep K)) v es u) (hs : v.2.saved.isSome = true)
    (hu : u.1 i = .save c) : v.1 i = .save c := by
  induction h with
  | nil => exact hu
  | @cons s e s' es u hst hr ih =>
    have hs' := ih (outputStep_isSome L hw hst hs) hu
    obtain ⟨w', -, rfl⟩ | ⟨j, x, c', d', -, -, hm, rfl⟩ := outputStep_cases L hw hst
    · exact hs'
    · by_cases hi : i = j
      · subst hi
        simp only [Function.update_self] at hs'
        subst hs'
        rw [hm.to_save] at hs
        cases hs
      · simpa only [Function.update_of_ne hi] using hs'

end

/-- Where everything that is saved comes from, up to the main task's restoration. -/
structure Attributed [DecidableEq ι] (K : Kscreen W) (config : W → SavedOutput) (w : W)
    (file : Option SavedOutput) (es : List (OutputEvent ι W))
    (t : (Option ι → Call) × Display W) : Prop where
  saved : ∀ s ∈ t.2.saved, Listed K config w file es s
  stored : ∀ s ∈ t.2.file, Listed K config w file es s ∨ s ∈ file
  calls : ∀ i, (t.1 i).From (Listed K config w file es) (Found K w file es)
  world : (∀ v e, Takes K w file es v e → changes v e = false) → t.2.world = lastSet w es

section
variable {ι : Type*} [DecidableEq ι] {K : Kscreen W} {config : W → SavedOutput} {w : W}
  {file : Option SavedOutput} {es : List (OutputEvent ι W)}
  {t t' : (Option ι → Call) × Display W} (L : OneOutput K config) (hw : FileWrites K)
include L hw

theorem Attributed.listing (ha : Attributed K config w file es t) (h : Life K w file es t)
    (hi : t.1 i = .save c) :
    Listed K config w file (es ++ [.call i .next]) (config t.2.world) := by
  refine ⟨es, i, [], t, c, rfl, h, hi, rfl, ?_, ha.world⟩
  intro v e hv hc
  obtain ⟨p, q, rfl, -, hrest⟩ := hv.run h
  exact save_before L hw hrest (hv.isSome L hw hc) hi

theorem Attributed.step (ha : Attributed K config w file es t) (h : Life K w file es t)
    (hst : outputStep K t e = some t') (hgone : t'.1 none ≠ .gone) :
    Attributed K config w file (es ++ [e]) t' := by
  have hlisted : ∀ s, Listed K config w file es s → Listed K config w file (es ++ [e]) s :=
    fun _ hs => hs.append [e]
  have hfound : ∀ s, Found K w file es s → Found K w file (es ++ [e]) s :=
    fun _ hs => hs.append [e]
  have hcalls := fun i => (ha.calls i).mono hlisted hfound
  have hsaved := fun s hs => hlisted s (ha.saved s hs)
  have hfile := fun s hs => (ha.stored s hs).imp_left (hlisted s)
  have hquiet : (∀ v x, Takes K w file (es ++ [e]) v x → changes v x = false) →
      t.2.world = lastSet w es ∧ changes t e = false := by
    intro hall
    exact ⟨ha.world fun v x hv => hall v x (hv.append [e]), hall t e ⟨es, [], rfl, h⟩⟩
  obtain ⟨w', rfl, rfl⟩ | ⟨i, x, c', d', rfl, hstep, hm, rfl⟩ := outputStep_cases L hw hst
  · exact ⟨hsaved, hfile, hcalls, fun _ => (lastSet_append w es (.user w')).symm⟩
  · have hlist : ∀ ch, t.1 i = .save ch →
        Listed K config w file (es ++ [.call i x]) (config t.2.world) := by
      intro ch hi
      rw [hi] at hstep
      cases x with
      | next => exact ha.listing L hw h hi
      | _ => cases hstep
    have hfind : t.1 i = .leaving → t.2.saved = none →
        ∀ s ∈ file, Found K w file (es ++ [.call i x]) s := by
      intro hi hnone s hs
      rw [hi] at hstep
      cases x with
      | next =>
        cases i with
        | none => exact ⟨es, [], t, rfl, h, hi, hnone, no_changes L hw h hnone, hs⟩
        | some i =>
          have hsession := (life_calls L hw h).2 i
          rw [hi, hnone] at hsession
          simp [Call.first] at hsession
      | _ => cases hstep
    obtain ⟨hsaved', hfile', hc'⟩ := hm.from hsaved hfile (hcalls i) hlist hfind
    refine ⟨hsaved', hfile', ?_, ?_⟩
    · intro j
      by_cases hj : j = i
      · subst hj
        simpa only [Function.update_self] using hc'
      · simpa only [Function.update_of_ne hj] using hcalls j
    · intro hall
      obtain ⟨hworld, hc⟩ := hquiet hall
      rw [lastSet_append, ← hworld]
      cases i with
      | some i => exact hm.world hc
      | none =>
        simp only [Function.update_self] at hgone
        exact hm.main_world (life_calls L hw h).1 hgone

theorem gone_stays (hst : outputStep K t e = some t') (h : t.1 i = .gone) : t'.1 i = .gone := by
  obtain ⟨w', -, rfl⟩ | ⟨j, x, c', d', -, -, hm, rfl⟩ := outputStep_cases L hw hst
  · exact h
  · by_cases hi : i = j
    · subst hi
      rw [h] at hm
      cases hm
    · simpa only [Function.update_of_ne hi] using h

theorem attributed (h : Life K w file es t) (hgone : t.1 none ≠ .gone) :
    Attributed K config w file es t := by
  have hall : Life K w file es t ∧
      (t.1 none ≠ .gone → Attributed K config w file es t) := by
    apply h.invariant_trace (p := [])
      (I := fun es t => Life K w file es t ∧
        (t.1 none ≠ .gone → Attributed K config w file es t))
    · rintro p s e s' ⟨hs, ha⟩ hst
      refine ⟨hs.append (.single hst), fun hne => ?_⟩
      exact (ha (mt (gone_stays L hw hst) hne)).step L hw hs hst hne
    · refine ⟨.nil _, fun _ => ⟨by simp, fun s hs => .inr hs, ?_, fun _ => rfl⟩⟩
      intro i
      cases i <;> trivial
  exact hall.2 hgone

/-- Where the main task completes its restoration, in any interleaving with the sessions' calls and
the user's changes, the output is then as the user last set it; or, no session having set it when
the main task found `SAVED` empty, as the file says; or as a task listed it for `SAVED`. Unless that
task was past its look at `SAVED` when a session first set the output, it listed what the user had
last set. -/
theorem shutdown_gives_back (w : W) (file : Option SavedOutput)
    (hf : ∀ c ∈ file, ∃ w, config w = c) (es : List (OutputEvent ι W))
    (t : (Option ι → Call) × Display W) (d' : Display W)
    (h : Run (Steps (outputStep K)) (tasks, { world := w, file := file }) es t)
    (hd : Call.next K t.2 (t.1 none) = some (.gone, d')) :
    d'.world = lastSet w es ∨ Found K w file es (config d'.world) ∨
      Listed K config w file es (config d'.world) := by
  have hne : t.1 none ≠ .gone := by
    intro hgone
    rw [hgone] at hd
    cases hd
  have ha := attributed L hw h hne
  have hm : Call.Moves K config t.2 (t.1 none) .gone d' := Call.moves_next L hw hd
  have hcalls := ha.calls none
  generalize t.1 none = c at hm hcalls
  cases hm with
  | nothing hs _ => exact .inl (ha.world (no_changes L hw h hs))
  | restoring s =>
    have hrange : ∃ w, config w = s := by
      rcases hcalls with ⟨_, _, _, u, _, -, -, -, hu, -⟩ | ⟨_, _, _, -, -, -, -, -, hfile⟩
      · exact ⟨u.2.world, hu⟩
      · exact hf s hfile
    obtain ⟨w', rfl⟩ := hrange
    rw [config_restoreSettings L t.2 w']
    exact .inr hcalls.symm

end

/-- A client joins and the user sets the output; then a signal ends the daemon. -/
def joinedThenStopped (w : Panel) : List (OutputEvent Unit Panel) :=
  .call (some ()) (.connect phone) :: List.replicate 7 (.call (some ()) .next) ++
    [.user w, .call none .leave, .call none .next]

theorem shutdown_gives_back_joined :
    ∃ t d', Run (Steps (outputStep Panel.kscreen)) (tasks, { world := (false, 1, 0) })
        (joinedThenStopped (true, 2, 0)) t ∧
      Call.next Panel.kscreen t.2 (t.1 none) = some (.gone, d') ∧
        Listed Panel.kscreen Panel.config (false, 1, 0) none (joinedThenStopped (true, 2, 0))
          (Panel.config d'.world) := by
  let d : Display Panel :=
    { world := (false, 1, 0), saved := some (Panel.config (false, 1, 0)),
      file := some (Panel.config (false, 1, 0)) }
  have hrun : ((joinedThenStopped (true, 2, 0)).foldlM (outputStep Panel.kscreen)
      (tasks, { world := (false, 1, 0) })).map
        (fun t => Call.next Panel.kscreen t.2 (t.1 none)) = some (some (.gone, d)) := by
    decide +kernel
  obtain ⟨t, ht, hd⟩ := Option.map_eq_some_iff.1 hrun
  have h := run_steps_iff.2 ht
  refine ⟨t, d, h, hd, ?_⟩
  rcases shutdown_gives_back Panel.oneOutput Panel.fileWrites (false, 1, 0) none (by simp) _ t d
    h hd with hlast | ⟨p, q, u, -, -, -, -, -, hfile⟩ | hlisted
  · have hne : d.world ≠ lastSet (false, 1, 0) (joinedThenStopped (true, 2, 0)) := by decide
    exact absurd hlast hne
  · cases hfile
  · exact hlisted

end DdrdeskHost
