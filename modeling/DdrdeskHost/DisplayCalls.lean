import DdrdeskHost.DisplayRuns
import DdrdeskHost.Lib.Runs

namespace DdrdeskHost
set_option autoImplicit true

/-- What a display call goes on to change once the original is saved. -/
inductive Change
  | viewport (vp : Viewport) (name out : Str)
  | uiScale (factor : ℚ)
  deriving DecidableEq

/-- Where a task stands in the display code; the main task serves until a signal ends it. -/
inductive Call
  | away
  | serving
  | viewport (vp : Viewport)
  | looping
  | uiScale (factor : ℚ)
  | check (c : Change)
  | save (c : Change)
  | persist (c : Change) (s : SavedOutput)
  | writing (c : Change) (s : SavedOutput) (file : Option SavedOutput)
  | store (c : Change) (s : SavedOutput)
  | change (c : Change)
  | leaving
  | restoring (s : SavedOutput)
  | gone
  deriving DecidableEq

inductive CallEvent
  | connect (vp : Viewport)
  | uiScale (factor : ℚ)
  | leave
  | next

section
variable (K : Kscreen W)

def Change.run (d : Display W) : Change → Display W
  | viewport vp name out => applySettings K name (viewportSettings vp out) d
  | uiScale factor =>
    match outputName K d with
    | none => d
    | some name => runSettings K name [.scale (scaleText factor)] d

/-- The display calls in steps: every access to `SAVED`, the file or the output is one. A write
empties the file first. -/
def Call.next (d : Display W) : Call → Option (Call × Display W)
  | .viewport vp =>
    match primaryListing K d.world with
    | none => some (.looping, d)
    | some (name, out) => some (.check (.viewport vp name out), d)
  | .uiScale factor =>
    some (if K.live d.world then .check (.uiScale (snapScale (min (max factor 1) 3)))
      else .looping, d)
  | .check c => some (if d.saved.isNone then .save c else .change c, d)
  | .save c =>
    match currentOutput K d.world with
    | none => some (.change c, d)
    | some s => some (.persist c s, d)
  | .persist c s => some (.writing c s d.file, { d with file := none })
  | .writing c s file => some (.store c s, { d with file := K.persist d.world s file })
  | .store c s => some (.change c, { d with saved := some s })
  | .change c => some (.looping, c.run K d)
  | .leaving =>
    match d.saved.or d.file with
    | none => some (.gone, d)
    | some s => some (if K.live d.world then .restoring s else .gone, d)
  | .restoring s => some (.gone, runSettings K s.name (restoreSettings s) d)
  | _ => none

def Call.step (c : Call) (d : Display W) : CallEvent → Option (Call × Display W)
  | .connect vp =>
    match c with
    | .away => some (.viewport vp, d)
    | _ => none
  | .uiScale factor =>
    match c with
    | .looping => some (.uiScale factor, d)
    | _ => none
  | .leave =>
    match c with
    | .looping | .serving => some (.leaving, d)
    | _ => none
  | .next => c.next K d

/-- A task that takes its steps alone. -/
def Alone : Call × Display W → Unit → Call × Display W → Prop :=
  Steps fun s _ => Call.next K s.2 s.1

/-- The tasks of a daemon that has started: the main one, under `none`, and the sessions. -/
def tasks : Option ι → Call
  | none => .serving
  | some _ => .away

end

section
variable {K : Kscreen W} {d : Display W}

theorem alone_next (h : Call.next K d c = some r) : Alone K (c, d) () r := h

theorem alone_check (c : Change) :
    ∃ es, Run (Alone K) (.check c, d) es
      (.looping, c.run K (if d.saved.isNone then saveCurrent K d else d)) := by
  have hcheck : Alone K (.check c, d) () (if d.saved.isNone then .save c else .change c, d) := rfl
  cases hs : d.saved.isNone with
  | false =>
    rw [hs] at hcheck
    exact ⟨[(), ()], .cons hcheck (.single (alone_next rfl))⟩
  | true =>
    rw [hs] at hcheck
    cases hc : currentOutput K d.world with
    | none =>
      have hsave : Alone K (.save c, d) () (.change c, d) :=
        alone_next (by simp only [Call.next, hc])
      have hskip : saveCurrent K d = d := by rw [saveCurrent, hc]
      rw [if_pos rfl, hskip]
      exact ⟨[(), (), ()], .cons hcheck (.cons hsave (.single (alone_next rfl)))⟩
    | some s =>
      let d₁ : Display W := { d with file := none }
      let d₂ : Display W := { d with file := K.persist d.world s d.file }
      let d₃ : Display W := { d₂ with saved := some s }
      have hsave : Alone K (.save c, d) () (.persist c s, d) :=
        alone_next (by simp only [Call.next, hc])
      have hpersist : Alone K (.persist c s, d) () (.writing c s d.file, d₁) := rfl
      have hwriting : Alone K (.writing c s d.file, d₁) () (.store c s, d₂) := rfl
      have hstore : Alone K (.store c s, d₂) () (.change c, d₃) := rfl
      have hchange : Alone K (.change c, d₃) () (.looping, c.run K d₃) := rfl
      have hsaved : saveCurrent K d = d₃ := by rw [saveCurrent, hc]
      rw [if_pos rfl, hsaved]
      have hwrite : Run (Alone K) (.persist c s, d) [(), ()] (.store c s, d₂) :=
        .cons hpersist (.single hwriting)
      exact ⟨_, .cons hcheck (.cons hsave (hwrite.append (.cons hstore (.single hchange))))⟩

theorem alone_viewport (vp : Viewport) (d : Display W) :
    ∃ es, Run (Alone K) (.viewport vp, d) es (.looping, (applyViewport K vp d).1) := by
  cases hp : primaryListing K d.world with
  | none =>
    have h₁ : Alone K (.viewport vp, d) () (.looping, (applyViewport K vp d).1) := by
      simp only [Alone, Steps, Call.next, hp, applyViewport]
    exact ⟨[()], .single h₁⟩
  | some p =>
    obtain ⟨name, out⟩ := p
    obtain ⟨es, hes⟩ := alone_check (K := K) (d := d) (.viewport vp name out)
    have h₁ : Alone K (.viewport vp, d) () (.check (.viewport vp name out), d) := by
      simp only [Alone, Steps, Call.next, hp]
    have h₂ : Run (Alone K) (.check (.viewport vp name out), d) es
        (.looping, (applyViewport K vp d).1) := by
      simpa only [applyViewport, hp, Change.run] using hes
    exact ⟨() :: es, .cons h₁ h₂⟩

theorem applyUiScale_eq_run (hl : K.live d.world = true) :
    applyUiScale K factor d = Change.run K (if d.saved.isNone then saveCurrent K d else d)
      (.uiScale (snapScale (min (max factor 1) 3))) := by
  rw [applyUiScale, if_pos hl]
  rfl

theorem alone_uiScale (factor : ℚ) (d : Display W) :
    ∃ es, Run (Alone K) (.uiScale factor, d) es (.looping, applyUiScale K factor d) := by
  cases hl : K.live d.world with
  | false =>
    have h₁ : Alone K (.uiScale factor, d) () (.looping, applyUiScale K factor d) := by
      simp only [Alone, Steps, Call.next, hl, Bool.false_eq_true, ↓reduceIte, applyUiScale]
    exact ⟨[()], .single h₁⟩
  | true =>
    let c : Change := .uiScale (snapScale (min (max factor 1) 3))
    obtain ⟨es, hes⟩ := alone_check (K := K) (d := d) c
    have h₁ : Alone K (.uiScale factor, d) () (.check c, d) := by
      simp only [Alone, Steps, Call.next, hl, ↓reduceIte, c]
    rw [applyUiScale_eq_run hl]
    exact ⟨() :: es, .cons h₁ hes⟩

theorem alone_restore (d : Display W) :
    ∃ es, Run (Alone K) (.leaving, d) es (.gone, restore K d) := by
  cases hs : d.saved.or d.file with
  | none =>
    have h₁ : Alone K (.leaving, d) () (.gone, restore K d) := by
      simp only [Alone, Steps, Call.next, hs, restore]
    exact ⟨[()], .single h₁⟩
  | some s =>
    cases hl : K.live d.world with
    | false =>
      have h₁ : Alone K (.leaving, d) () (.gone, restore K d) := by
        simp only [Alone, Steps, Call.next, hs, hl, Bool.false_eq_true, ↓reduceIte, restore]
      exact ⟨[()], .single h₁⟩
    | true =>
      have h₁ : Alone K (.leaving, d) () (.restoring s, d) := by
        simp only [Alone, Steps, Call.next, hs, hl, ↓reduceIte]
      have h₂ : Alone K (.restoring s, d) () (.gone, restore K d) := by
        simp only [Alone, Steps, Call.next, hs, hl, ↓reduceIte, restore]
      exact ⟨[(), ()], .cons h₁ (.single h₂)⟩

end

theorem Change.run_saved (K : Kscreen W) (c : Change) (d : Display W) :
    (c.run K d).saved = d.saved ∧ (c.run K d).file = d.file := by
  cases c with
  | viewport vp name out =>
    rw [Change.run, applySettings]
    split <;> exact ⟨rfl, rfl⟩
  | uiScale factor =>
    rw [Change.run]
    split <;> exact ⟨rfl, rfl⟩

/-- The steps of a task, where the output can always be listed and written to the file. -/
inductive Call.Moves (K : Kscreen W) (config : W → SavedOutput) (d : Display W) :
    Call → Call → Display W → Prop
  | connect (vp : Viewport) : Moves K config d .away (.viewport vp) d
  | ask (factor : ℚ) : Moves K config d .looping (.uiScale factor) d
  | leave : Moves K config d .looping .leaving d
  | stop : Moves K config d .serving .leaving d
  | viewport (vp : Viewport) (c : Change) : Moves K config d (.viewport vp) (.check c) d
  | uiScale (factor : ℚ) (c : Change) : Moves K config d (.uiScale factor) (.check c) d
  | saved (c : Change) (s : SavedOutput) :
      d.saved = some s → Moves K config d (.check c) (.change c) d
  | unsaved (c : Change) : d.saved = none → Moves K config d (.check c) (.save c) d
  | save (c : Change) : Moves K config d (.save c) (.persist c (config d.world)) d
  | persist (c : Change) (s : SavedOutput) :
      Moves K config d (.persist c s) (.writing c s d.file) { d with file := none }
  | writing (c : Change) (s : SavedOutput) (file : Option SavedOutput) :
      Moves K config d (.writing c s file) (.store c s) { d with file := some s }
  | store (c : Change) (s : SavedOutput) :
      Moves K config d (.store c s) (.change c) { d with saved := some s }
  | change (c : Change) : Moves K config d (.change c) .looping (c.run K d)
  | nothing : d.saved = none → d.file = none → Moves K config d .leaving .gone d
  | fromSaved (s : SavedOutput) : d.saved = some s → Moves K config d .leaving (.restoring s) d
  | fromFile (s : SavedOutput) :
      d.saved = none → d.file = some s → Moves K config d .leaving (.restoring s) d
  | restoring (s : SavedOutput) :
      Moves K config d (.restoring s) .gone (runSettings K s.name (restoreSettings s) d)

section
variable {K : Kscreen W} {config : W → SavedOutput} (L : OneOutput K config) (hw : FileWrites K)
include L hw

theorem Call.moves_next (h : Call.next K d c = some (c', d')) : Moves K config d c c' d' := by
  cases c with
  | viewport vp =>
    obtain ⟨text, -, hp⟩ := primaryListing_eq L d.world
    simp only [Call.next, hp, Option.some.injEq, Prod.mk.injEq] at h
    obtain ⟨rfl, rfl⟩ := h
    exact .viewport vp _
  | uiScale factor =>
    simp only [Call.next, L.live, ↓reduceIte, Option.some.injEq, Prod.mk.injEq] at h
    obtain ⟨rfl, rfl⟩ := h
    exact .uiScale factor _
  | check ch =>
    simp only [Call.next, Option.some.injEq, Prod.mk.injEq] at h
    obtain ⟨rfl, rfl⟩ := h
    cases hs : d.saved with
    | none => exact .unsaved ch hs
    | some s => exact .saved ch s hs
  | save ch =>
    simp only [Call.next, currentOutput_eq L, Option.some.injEq, Prod.mk.injEq] at h
    obtain ⟨rfl, rfl⟩ := h
    exact .save ch
  | persist ch s =>
    cases h
    exact .persist ch s
  | writing ch s file =>
    simp only [Call.next, hw d.world s file, Option.some.injEq, Prod.mk.injEq] at h
    obtain ⟨rfl, rfl⟩ := h
    exact .writing ch s file
  | store ch s =>
    cases h
    exact .store ch s
  | change ch =>
    cases h
    exact .change ch
  | leaving =>
    cases hs : d.saved.or d.file with
    | none =>
      simp only [Call.next, hs, Option.some.injEq, Prod.mk.injEq] at h
      obtain ⟨rfl, rfl⟩ := h
      obtain ⟨hsaved, hfile⟩ := Option.or_eq_none_iff.1 hs
      exact .nothing hsaved hfile
    | some s =>
      simp only [Call.next, hs, L.live, ↓reduceIte, Option.some.injEq, Prod.mk.injEq] at h
      obtain ⟨rfl, rfl⟩ := h
      rcases Option.or_eq_some_iff.1 hs with hsaved | ⟨hsaved, hfile⟩
      · exact .fromSaved s hsaved
      · exact .fromFile s hsaved hfile
  | restoring s =>
    cases h
    exact .restoring s
  | away | serving | looping | gone => cases h

theorem Call.moves (h : Call.step K c d e = some (c', d')) : Moves K config d c c' d' := by
  cases e with
  | next => exact Call.moves_next L hw h
  | connect vp =>
    cases c with
    | away =>
      cases h
      exact .connect vp
    | _ => cases h
  | uiScale factor =>
    cases c with
    | looping =>
      cases h
      exact .ask factor
    | _ => cases h
  | leave =>
    cases c with
    | looping =>
      cases h
      exact .leave
    | serving =>
      cases h
      exact .stop
    | _ => cases h

end

end DdrdeskHost
