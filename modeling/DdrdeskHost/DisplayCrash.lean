import DdrdeskHost.DisplayCalls

namespace DdrdeskHost
set_option autoImplicit true

/-- The tasks take steps in any order, and the daemon may be killed at any point. -/
inductive DaemonEvent (ι : Type*)
  | call (i : Option ι) (e : CallEvent)
  | kill

/-- A kill ends all tasks; the new daemon has an empty `SAVED` and finds the file as it was. -/
def daemonStep [DecidableEq ι] (K : Kscreen W) (s : (Option ι → Call) × Display W) :
    DaemonEvent ι → Option ((Option ι → Call) × Display W)
  | .call i e => takeTurn (Call.step K) s (i, e)
  | .kill => some (tasks, { s.2 with saved := none })

/-- The output is as the user set it, or `SAVED` says how that was. -/
def Held (config : W → SavedOutput) (user : SavedOutput) (d : Display W) : Prop :=
  config d.world = user ∨ d.saved = some user

/-- `SAVED` holds nothing but the user's configuration, and the file nothing but this and what it
held at first. Where it held nothing then, the user's configuration is not lost. -/
structure Kept (config : W → SavedOutput) (user : SavedOutput) (old : Option SavedOutput)
    (d : Display W) : Prop where
  saved : ∀ s ∈ d.saved, s = user ∧ ∀ f ∈ d.file, f = user
  file : ∀ f ∈ d.file, f = user ∨ f ∈ old
  output : old = none → Held config user d ∨ d.file = some user

/-- What a task carries from one step to the next. -/
def Call.Carries (config : W → SavedOutput) (user : SavedOutput) (old : Option SavedOutput)
    (d : Display W) : Call → Prop
  | .persist _ s => s = user ∧ (old = none → Held config user d)
  | .writing _ s _ => s = user
  | .store _ s => s = user ∧ ∀ f ∈ d.file, f = user
  | .change _ => d.saved = some user
  | .restoring s => s = user ∨ s ∈ old
  | _ => True

/-- What a task's step leaves to the other tasks. -/
structure Leaves (config : W → SavedOutput) (user : SavedOutput) (old : Option SavedOutput)
    (d d' : Display W) : Prop where
  held : old = none → Held config user d → Held config user d'
  file : (∀ f ∈ d.file, f = user) → ∀ f ∈ d'.file, f = user
  saved : d.saved = some user → d'.saved = some user

theorem Leaves.rfl : Leaves config user old d d := ⟨fun _ => id, id, id⟩

theorem Call.Carries.mono {c : Call} (h : c.Carries config user old d)
    (hd : Leaves config user old d d') : c.Carries config user old d' := by
  cases c with
  | persist => exact ⟨h.1, fun ho => hd.held ho (h.2 ho)⟩
  | store => exact ⟨h.1, hd.file h.2⟩
  | change => exact hd.saved h
  | _ => exact h

/-- Whether a task that is to list the output for `save_current` finds it as the user set it. -/
def Call.savesOriginal (config : W → SavedOutput) (user : SavedOutput) (d : Display W) :
    Call → Bool
  | .save _ => config d.world = user
  | _ => true

/-- The same of the task that takes the next step; a kill is not to come within a write of the file
while the output is another. -/
def savesOriginal (config : W → SavedOutput) (user : SavedOutput)
    (s : (Option ι → Call) × Display W) : DaemonEvent ι → Bool
  | .call i _ => (s.1 i).savesOriginal config user s.2
  | .kill => config s.2.world = user ∨ s.2.file ≠ none

/-- The daemon's steps that save the original or nothing. -/
abbrev SavingStep [DecidableEq ι] (K : Kscreen W) (config : W → SavedOutput) (user : SavedOutput) :
    (Option ι → Call) × Display W → DaemonEvent ι → (Option ι → Call) × Display W → Prop :=
  Guard (fun s e => savesOriginal config user s e = true) (Steps (daemonStep K))

section
variable {K : Kscreen W} {config : W → SavedOutput} (L : OneOutput K config)
include L

/-- One step of one task. -/
theorem Kept.step (hk : Kept config (config w) old d) (hc : c.Carries config (config w) old d)
    (ho : c.savesOriginal config (config w) d = true) (h : Call.Moves K config d c c' d') :
    Kept config (config w) old d' ∧ c'.Carries config (config w) old d' ∧
      Leaves config (config w) old d d' := by
  cases h with
  | saved ch s hs => exact ⟨hk, by rw [Call.Carries, hs, (hk.saved s hs).1], .rfl⟩
  | save ch =>
    have ho : config d.world = config w := of_decide_eq_true ho
    exact ⟨hk, ⟨ho, fun _ => .inl ho⟩, .rfl⟩
  | persist ch s =>
    obtain ⟨hs, hheld⟩ := hc
    have hk' : Kept config (config w) old { d with file := none } := by
      constructor
      · intro s hs
        exact ⟨(hk.saved s hs).1, by simp⟩
      · simp
      · exact fun ho => .inl (hheld ho)
    exact ⟨hk', hs, fun _ => id, fun _ => by simp, id⟩
  | writing ch s file =>
    have hs : s = config w := hc
    subst hs
    have hfile : ∀ f ∈ some (config w), f = config w := fun f hf => (Option.some.inj hf).symm
    have hk' : Kept config (config w) old { d with file := some (config w) } := by
      constructor
      · intro s hs
        exact ⟨(hk.saved s hs).1, hfile⟩
      · exact fun f hf => .inl (hfile f hf)
      · exact fun _ => .inr rfl
    exact ⟨hk', ⟨rfl, hfile⟩, fun _ => id, fun _ => hfile, id⟩
  | store ch s =>
    obtain ⟨rfl, hf⟩ := hc
    have hk' : Kept config (config w) old { d with saved := some (config w) } := by
      constructor
      · intro s hs
        exact ⟨(Option.some.inj hs).symm, hf⟩
      · exact hk.file
      · exact fun _ => .inl (.inr rfl)
    exact ⟨hk', rfl, fun _ _ => .inr rfl, id, fun _ => rfl⟩
  | change ch =>
    obtain ⟨hs, hf⟩ := Change.run_saved K ch d
    have hsaved : (ch.run K d).saved = some (config w) := hs.trans hc
    have hk' : Kept config (config w) old (ch.run K d) := by
      constructor
      · rw [hs, hf]
        exact hk.saved
      · rw [hf]
        exact hk.file
      · exact fun _ => .inl (.inr hsaved)
    exact ⟨hk', trivial, fun _ _ => .inr hsaved, by rw [hf]; exact id, fun _ => hsaved⟩
  | fromSaved s hs => exact ⟨hk, .inl (hk.saved s hs).1, .rfl⟩
  | fromFile s _ hf => exact ⟨hk, hk.file s hf, .rfl⟩
  | restoring s =>
    have hback : old = none → Held config (config w)
        (runSettings K s.name (restoreSettings s) d) := by
      rintro rfl
      rcases hc with rfl | hs
      · exact .inl (config_restoreSettings L d w)
      · cases hs
    exact ⟨⟨hk.saved, hk.file, fun ho => .inl (hback ho)⟩, trivial,
      fun ho _ => hback ho, id, id⟩
  | _ => exact ⟨hk, trivial, .rfl⟩

theorem Kept.leaving (hk : Kept config (config w) old d)
    (h : d.saved = some (config w) ∨ old = none) :
    Call.next K d .leaving = some (.restoring (config w), d) ∨
      Call.next K d .leaving = some (.gone, d) ∧ config d.world = config w := by
  cases hs : d.saved.or d.file with
  | none =>
    obtain ⟨hsaved, hfile⟩ := Option.or_eq_none_iff.1 hs
    rw [hsaved] at h
    rcases h with h | h
    · cases h
    · have hnext : Call.next K d .leaving = some (.gone, d) := by simp only [Call.next, hs]
      rcases hk.output h with (ho | hsome) | hsome
      · exact .inr ⟨hnext, ho⟩
      · rw [hsaved] at hsome
        cases hsome
      · rw [hfile] at hsome
        cases hsome
  | some s =>
    have huser : s = config w := by
      rcases Option.or_eq_some_iff.1 hs with hsaved | ⟨hnone, hfile⟩
      · exact (hk.saved s hsaved).1
      · rw [hnone] at h
        rcases h with h | rfl
        · cases h
        · exact (hk.file s hfile).resolve_right (by simp)
    subst huser
    exact .inl (by simp only [Call.next, hs, L.live, ↓reduceIte])

theorem Kept.restored (hk : Kept config (config w) none d)
    (hc : c.Carries config (config w) none d) (h : Call.Moves K config d c .gone d') :
    config d'.world = config w := by
  cases h with
  | nothing hs hf =>
    rcases hk.output rfl with (ho | hsaved) | hfile
    · exact ho
    · cases hs.symm.trans hsaved
    · cases hf.symm.trans hfile
  | restoring s =>
    have hs : s = config w := hc.resolve_right (by simp)
    subst hs
    exact config_restoreSettings L d w

end

/-- All tasks at once. -/
def AllKept (config : W → SavedOutput) (user : SavedOutput) (old : Option SavedOutput)
    (s : (Option ι → Call) × Display W) : Prop :=
  ∀ i, Kept config user old s.2 ∧ (s.1 i).Carries config user old s.2

theorem kept_killed {d : Display W} {calls : Option ι → Call}
    (hfile : ∀ f ∈ d.file, f = user ∨ f ∈ old)
    (ho : savesOriginal config user (calls, d) .kill = true) :
    Kept config user old { d with saved := none } := by
  refine ⟨by simp, hfile, ?_⟩
  rintro rfl
  have ho : config d.world = user ∨ d.file ≠ none := of_decide_eq_true ho
  rcases ho with ho | hsome
  · exact .inl (.inl ho)
  · obtain ⟨f, hf⟩ := Option.ne_none_iff_exists'.1 hsome
    rcases hfile f hf with rfl | hmem
    · exact .inr hf
    · cases hmem

theorem allKept_tasks (hk : Kept config user old d) :
    AllKept config user old (tasks (ι := ι), d)
  | none => ⟨hk, trivial⟩
  | some _ => ⟨hk, trivial⟩

section
variable {K : Kscreen W} [DecidableEq ι]

theorem saves_other (hw : FileWrites K) {calls : Option ι → Call} (hc : calls i = .persist c x)
    (hne : x ≠ user) (d : Display W) :
    ∃ es u, Run (Steps (daemonStep K)) (calls, d) es u ∧ ∃ x ∈ u.2.saved, x ≠ user := by
  let d₁ : Display W := { d with file := none }
  let d₂ : Display W := { d with file := some x }
  let d₃ : Display W := { d₂ with saved := some x }
  let calls₁ := Function.update calls i (.writing c x d.file)
  let calls₂ := Function.update calls₁ i (.store c x)
  have hpersist : daemonStep K (calls, d) (.call i .next) = some (calls₁, d₁) :=
    takeTurn_eq (by simp only [hc]; rfl)
  have hwriting : daemonStep K (calls₁, d₁) (.call i .next) = some (calls₂, d₂) :=
    takeTurn_eq (by
      simp only [calls₁, Function.update_self, Call.step, Call.next, hw d₁.world x d.file]
      rfl)
  have hstore : daemonStep K (calls₂, d₂) (.call i .next) =
      some (Function.update calls₂ i (.change c), d₃) :=
    takeTurn_eq (by simp only [calls₂, Function.update_self]; rfl)
  exact ⟨_, _, .cons hpersist (.cons hwriting (.single hstore)), x, rfl, hne⟩

theorem restores_other {config : W → SavedOutput} {d : Display W} (hne : config d.world ≠ user) (hf : d.file = none) :
    ∃ es u, Run (Steps (daemonStep K)) (tasks (ι := ι), { d with saved := none }) es u ∧
      ∃ i d', Call.next K u.2 (u.1 i) = some (.gone, d') ∧ config d'.world ≠ user := by
  let d' : Display W := { d with saved := none }
  let calls : Option ι → Call := Function.update tasks none .leaving
  have hleave : daemonStep K (tasks, d') (.call none .leave) = some (calls, d') :=
    takeTurn_eq rfl
  have hgone : Call.next K d' (calls none) = some (.gone, d') := by
    simp only [calls, Function.update_self, Call.next, d', hf, Option.or_none]
  exact ⟨[.call none .leave], _, .single hleave, none, d', hgone, hne⟩

end

section
variable {K : Kscreen W} {config : W → SavedOutput} (L : OneOutput K config) (hw : FileWrites K)
  [DecidableEq ι] {s t : (Option ι → Call) × Display W} {e : DaemonEvent ι}
include L hw

/-- Every step of the daemon, and a kill. -/
theorem AllKept.step (hs : AllKept config (config w) old s)
    (h : SavingStep K config (config w) s e t) :
    AllKept config (config w) old t ∧
      (e ≠ .kill → s.2.saved = some (config w) → t.2.saved = some (config w)) := by
  obtain ⟨ho, h⟩ := h
  cases e with
  | kill =>
    cases h
    exact ⟨allKept_tasks (kept_killed (hs none).1.file ho), fun hne => absurd rfl hne⟩
  | call i x =>
    have hturn := Interleave.of_turn
      (C := fun c d _ => c.savesOriginal config (config w) d = true) ho h
    have hall : ∀ i, Kept config (config w) old s.2 ∧
        (s.1 i).Carries config (config w) old s.2 := hs
    constructor
    · apply hturn.forall_keep (I := fun c d =>
        Kept config (config w) old d ∧ c.Carries config (config w) old d) ?_ ?_ hall
      · rintro c d e c' d' ⟨hk, hc⟩ ⟨ho, h⟩
        obtain ⟨hk', hc', -⟩ := hk.step L hc ho (Call.moves L hw h)
        exact ⟨hk', hc'⟩
      · rintro m c d e c' d' ⟨-, hm⟩ ⟨hk, hc⟩ ⟨ho, h⟩
        obtain ⟨hk', -, hleaves⟩ := hk.step L hc ho (Call.moves L hw h)
        exact ⟨hk', hm.mono hleaves⟩
    · intro _ hsaved
      cases hturn with
      | turn hp =>
        obtain ⟨-, -, hleaves⟩ := (hs i).1.step L (hs i).2 hp.1 (Call.moves L hw hp.2)
        exact hleaves.saved hsaved

theorem AllKept.run (hs : AllKept config (config w) old s)
    (h : Run (SavingStep K config (config w)) s es t) : AllKept config (config w) old t :=
  h.invariant (fun _ _ _ hs hst => (hs.step L hw hst).1) hs

/-- Once `SAVED` is set, it stays until a kill; and what the file held at first is then gone. -/
theorem AllKept.run_saved (hs : AllKept config (config w) old s)
    (hsaved : s.2.saved = some (config w)) (h : Run (SavingStep K config (config w)) s es t) :
    DaemonEvent.kill ∉ es ∧ AllKept config (config w) old t ∧ t.2.saved = some (config w) ∨
      AllKept config (config w) none t := by
  induction h with
  | nil s => exact .inl ⟨List.not_mem_nil, hs, hsaved⟩
  | @cons s e u es t hst hr ih =>
    cases e with
    | call i x =>
      obtain ⟨hu, hkeep⟩ := hs.step L hw hst
      have husaved : u.2.saved = some (config w) := hkeep (by simp) hsaved
      rcases ih hu husaved with ⟨hkill, ht⟩ | ht
      · exact .inl ⟨by simp [hkill], ht⟩
      · exact .inr ht
    | kill =>
      obtain ⟨ho, h⟩ := hst
      cases h
      have hfile := ((hs none).1.saved _ hsaved).2
      have hu : AllKept config (config w) none (tasks (ι := ι), { s.2 with saved := none }) :=
        allKept_tasks (kept_killed (fun f hf => .inl (hfile f hf)) ho)
      exact .inr (hu.run L hw hr)

theorem unkept_daemonStep {user : SavedOutput} (ho : savesOriginal config user s e = false)
    (h : daemonStep K s e = some t) :
    ∃ es u, Run (Steps (daemonStep K)) t es u ∧ ((∃ x ∈ u.2.saved, x ≠ user) ∨
      ∃ i d', Call.next K u.2 (u.1 i) = some (.gone, d') ∧ config d'.world ≠ user) := by
  obtain ⟨calls, d⟩ := s
  cases e with
  | kill =>
    cases h
    have hlost : ¬(config d.world = user ∨ d.file ≠ none) := of_decide_eq_false ho
    obtain ⟨hne, hfile⟩ := not_or.1 hlost
    obtain ⟨es, u, hu, hother⟩ := restores_other (K := K) (ι := ι) hne (not_not.1 hfile)
    exact ⟨es, u, hu, .inr hother⟩
  | call i x =>
    have ho : (calls i).savesOriginal config user d = false := ho
    cases hc : calls i with
    | save c =>
      rw [hc] at ho
      have hne : config d.world ≠ user := of_decide_eq_false ho
      cases x with
      | next =>
        simp only [daemonStep, takeTurn, hc, Call.step, Call.next, currentOutput_eq L,
          Option.map_some, Option.some.injEq] at h
        subst h
        obtain ⟨es, u, hu, hother⟩ := saves_other hw (Function.update_self i _ calls) hne d
        exact ⟨es, u, hu, .inl hother⟩
      | connect | uiScale | leave =>
        simp only [daemonStep, takeTurn, hc, Call.step, Option.map_none] at h
        cases h
    | _ =>
      rw [hc] at ho
      cases ho

/-- As long as the output is only listed as the user set it, nothing else is saved, and the file
holds that or what it held at first. A task that leaves after a session came to change the output
restores that; and after a kill every restoration does. Any other step goes on to save another
configuration, or to a restoration that completes with another one. -/
theorem saved_original_survives (w : W) (file : Option SavedOutput) :
    (∀ p q (s : (Option ι → Call) × Display W) calls d,
      Run (SavingStep K config (config w)) (tasks, { world := w, file := file }) p s →
      Run (SavingStep K config (config w)) s q (calls, d) →
      (∀ x ∈ d.saved, x = config w) ∧ (∀ x ∈ d.file, x = config w ∨ x ∈ file) ∧
      ((∃ i c, s.1 i = .change c) → ∀ i, calls i = .leaving →
        Call.next K d (calls i) = some (.restoring (config w), d) ∨
          Call.next K d (calls i) = some (.gone, d) ∧ config d.world = config w) ∧
      ((∀ x ∈ file, x = config w) ∨ (∃ i c, s.1 i = .change c) ∧ .kill ∈ q →
        ∀ i d', Call.next K d (calls i) = some (.gone, d') → config d'.world = config w)) ∧
    ∀ (s t : (Option ι → Call) × Display W) e, savesOriginal config (config w) s e = false →
      daemonStep K s e = some t →
        ∃ es u, Run (Steps (daemonStep K)) t es u ∧ ((∃ x ∈ u.2.saved, x ≠ config w) ∨
          ∃ i d', Call.next K u.2 (u.1 i) = some (.gone, d') ∧ config d'.world ≠ config w) := by
  constructor
  · intro p q s calls d hp hq
    have hstart : AllKept config (config w) file
        (tasks (ι := ι), { world := w, file := file }) :=
      allKept_tasks ⟨by simp, fun f hf => .inr hf, fun _ => .inl (.inl rfl)⟩
    have hs := hstart.run L hw hp
    have hd := hs.run L hw hq
    have hchanged : (∃ i c, s.1 i = .change c) →
        DaemonEvent.kill ∉ q ∧ AllKept config (config w) file (calls, d) ∧
          d.saved = some (config w) ∨ AllKept config (config w) none (calls, d) := by
      rintro ⟨i, c, hc⟩
      have hsaved := (hs i).2
      rw [hc] at hsaved
      exact hs.run_saved L hw hsaved hq
    refine ⟨fun x hx => ((hd none).1.saved x hx).1, (hd none).1.file, ?_, ?_⟩
    · intro hc i hi
      rw [hi]
      rcases hchanged hc with ⟨-, hkept, hsaved⟩ | hkept
      · exact (hkept none).1.leaving L (.inl hsaved)
      · exact (hkept none).1.leaving L (.inr rfl)
    · intro hor i d' hgone
      have hkept : AllKept config (config w) none (calls, d) := by
        rcases hor with hfile | ⟨hc, hkill⟩
        · have hnone : AllKept config (config w) none
              (tasks (ι := ι), { world := w, file := file }) :=
            allKept_tasks ⟨by simp, fun f hf => .inl (hfile f hf), fun _ => .inl (.inl rfl)⟩
          exact (hnone.run L hw hp).run L hw hq
        · rcases hchanged hc with ⟨hno, -⟩ | hkept
          · exact absurd hkill hno
          · exact hkept
      exact (hkept i).1.restored L (hkept i).2 (Call.moves_next L hw hgone)
  · intro s t e ho h
    exact unkept_daemonStep L hw ho h

end

/-- A session up to its loop. -/
def connects (i : ι) : List (DaemonEvent ι) :=
  .call (some i) (.connect phone) :: List.replicate 7 (.call (some i) .next)

/-- An earlier daemon has left another configuration in the file. -/
def leftOver (user old : Panel) : Display Panel :=
  { world := user, file := some (Panel.config old) }

/-- The change of a session, a kill, and after the restart the signal that ends the daemon. -/
def killedAndStopped : List (DaemonEvent Unit) :=
  [.call (some ()) .next, .kill, .call none .leave, .call none .next]

/-- The daemon is killed in a session and restarted; a signal then ends it in good order, and the
output is restored from the file, which the session wrote over what it found. -/
theorem saved_original_survives_kill :
    ∃ (s : (Option Unit → Call) × Display Panel) (calls : Option Unit → Call)
      (d d' : Display Panel),
      Run (Steps (daemonStep Panel.kscreen)) (tasks, leftOver (false, 1, 0) (true, 4, 0))
          ((connects ()).take 7) s ∧
        Run (Steps (daemonStep Panel.kscreen)) s killedAndStopped (calls, d) ∧
          Call.next Panel.kscreen d (calls none) = some (.gone, d') ∧
            Panel.config d'.world = Panel.config (false, 1, 0) := by
  let f := guarded (fun s e => savesOriginal Panel.config (Panel.config (false, 1, 0)) s e = true)
    (daemonStep (ι := Unit) Panel.kscreen)
  let c : Change := .viewport phone "eDP-1".toList (Panel.listing (false, 1, 0))
  let r : Display Panel := { world := (false, 1, 0), file := some (Panel.config (false, 1, 0)) }
  let start := leftOver (false, 1, 0) (true, 4, 0)
  have hruns : (((connects ()).take 7).foldlM f (tasks, start)).bind
      (fun s => (killedAndStopped.foldlM f s).map fun t =>
        (decide (s.1 (some ()) = .change c),
          decide (Call.next Panel.kscreen t.2 (t.1 none) = some (.gone, r)))) =
      some (true, true) := by decide +kernel
  obtain ⟨s, hs, hrest⟩ := Option.bind_eq_some_iff.1 hruns
  obtain ⟨⟨calls, d⟩, ht, hpair⟩ := Option.map_eq_some_iff.1 hrest
  obtain ⟨hchange, hnext⟩ := Prod.mk.inj hpair
  have hchange := of_decide_eq_true hchange
  have hnext := of_decide_eq_true hnext
  have hp := run_guarded_iff.2 hs
  have hq := run_guarded_iff.2 ht
  have hkept := (saved_original_survives Panel.oneOutput Panel.fileWrites (false, 1, 0)
    start.file).1 _ _ s calls d hp hq
  have hkill : .kill ∈ killedAndStopped := by simp [killedAndStopped]
  exact ⟨s, calls, d, r, hp.of_guard, hq.of_guard, hnext,
    hkept.2.2.2 (.inr ⟨⟨some (), c, hchange⟩, hkill⟩) none r hnext⟩

/-- The daemon is killed while a session has the display changed; the next session saves the
changed configuration over the original. -/
theorem saved_original_lost :
    ¬∀ (es : List (DaemonEvent Unit)) calls d,
      Run (Steps (daemonStep Panel.kscreen)) (tasks, { world := (false, 1, 0) }) es (calls, d) →
        ∀ s ∈ d.file, s = Panel.config (false, 1, 0) := by
  intro h
  have hrun : ((connects () ++ .kill :: connects ()).foldlM (daemonStep Panel.kscreen)
      (tasks, { world := (false, 1, 0) })).map (fun s => s.2.file) =
        some (some (Panel.config (false, 5, 0))) := by decide +kernel
  obtain ⟨⟨calls, d⟩, hs, hf⟩ := Option.map_eq_some_iff.1 hrun
  exact absurd (h _ calls d (run_steps_iff.2 hs) _ hf) (by decide +kernel)

end DdrdeskHost
