import DdrdeskHost.Flv
import DdrdeskHost.Lib.Runs

namespace DdrdeskHost
set_option autoImplicit true

/-- The capacity of the channel behind `vtx` and `vrx`. -/
def queueCapacity : Nat := 4

/-- Where the reader thread stands in `read_loop`. -/
inductive Reader
  | opening
  | header
  | checking
  | demuxing
  | sending (au : NalUnit)
  | finished
  deriving DecidableEq

/-- Where the session's task stands: in its loop, and then in `Capture::stop`. -/
inductive Task
  | receiving
  | writing
  | setFlag
  | killRecorder
  | dropKeeper
  | join
  | unlink
  | stopped
  deriving DecidableEq

inductive Recorder
  | starting
  | writing
  | gone
  deriving DecidableEq

/-- The reader thread, the session's task and the recorder, with the queue and the FIFO between
them; `handled` and `taken` record what became of the access units. -/
structure Pipeline where
  reader : Reader := .opening
  task : Task := .receiving
  recorder : Recorder := .starting
  keeper : Bool := true
  stop : Bool := false
  queue : List NalUnit := []
  handled : List (NalUnit × Bool) := []
  taken : List NalUnit := []
  deriving DecidableEq

inductive PipelineEvent
  | open
  | header
  | check
  | demux (au : NalUnit)
  | broken
  | eof
  | send
  | recv
  | frame (reply : Bool)
  | written (ok : Bool)
  | leave
  | setFlag
  | killRecorder
  | dropKeeper
  | join
  | unlink
  | recorderOpen
  | recorderExit
  deriving DecidableEq

namespace Pipeline

/-- Some write end of the FIFO is open. -/
def writers (s : Pipeline) : Bool := s.keeper || s.recorder = .writing

/-- The reader waits for bytes. -/
def reading (s : Pipeline) : Bool := s.reader = .header || s.reader = .demuxing

/-- One step of the reader thread, of the task, or of the recorder. A read ends with bytes, with
data that is not FLV, or with the end of the stream once all write ends are closed. -/
def step (s : Pipeline) : PipelineEvent → Option Pipeline
  | .open =>
    if s.reader = .opening ∧ s.writers then some { s with reader := .header } else none
  | .header => if s.reader = .header then some { s with reader := .checking } else none
  | .check =>
    if s.reader = .checking then
      some { s with reader := if s.stop then .finished else .demuxing }
    else none
  | .demux au => if s.reader = .demuxing then some { s with reader := .sending au } else none
  | .broken => if s.reading then some { s with reader := .finished } else none
  | .eof => if s.reading ∧ ¬s.writers then some { s with reader := .finished } else none
  | .send =>
    match s.reader with
    | .sending au =>
      if s.queue.length < queueCapacity then
        some { s with reader := .checking, queue := s.queue ++ [au],
                      handled := s.handled ++ [(au, true)] }
      -- `blocking_send` of a keyframe waits for room, `try_send` of another unit drops it
      else if au.keyframe then none
      else some { s with reader := .checking, handled := s.handled ++ [(au, false)] }
    | _ => none
  | .recv =>
    match s.task, s.queue with
    | .receiving, au :: queue =>
      some { s with task := .writing, queue := queue, taken := s.taken ++ [au] }
    | _, _ => none
  | .frame reply =>
    if s.task = .receiving then some { s with task := if reply then .writing else .receiving }
    else none
  | .written ok =>
    if s.task = .writing then some { s with task := if ok then .receiving else .setFlag } else none
  | .leave => if s.task = .receiving then some { s with task := .setFlag } else none
  | .setFlag =>
    if s.task = .setFlag then some { s with task := .killRecorder, stop := true } else none
  | .killRecorder =>
    if s.task = .killRecorder then some { s with task := .dropKeeper, recorder := .gone } else none
  | .dropKeeper =>
    if s.task = .dropKeeper then some { s with task := .join, keeper := false } else none
  | .join =>
    if s.task = .join ∧ s.reader = .finished then some { s with task := .unlink } else none
  | .unlink => if s.task = .unlink then some { s with task := .stopped } else none
  | .recorderOpen =>
    if s.recorder = .starting then some { s with recorder := .writing } else none
  | .recorderExit => if s.recorder = .gone then none else some { s with recorder := .gone }

end Pipeline

/-- The step needs bytes from the recorder. -/
def PipelineEvent.arrival : PipelineEvent → Bool
  | header | demux _ | broken => true
  | _ => false

/-- The task waits for the reader, and nothing can happen without new bytes. -/
def Deadlock (s : Pipeline) : Prop :=
  s.task = .join ∧ s.reader ≠ .finished ∧ ∀ e, e.arrival = false → s.step e = none

/-- How far the task has come since it left its loop. -/
def Task.stage : Task → Nat
  | receiving | writing => 0
  | setFlag => 1
  | killRecorder => 2
  | dropKeeper => 3
  | join => 4
  | unlink => 5
  | stopped => 6

/-- The reader waits in `blocking_send`. -/
def Pipeline.blocked (s : Pipeline) : Bool :=
  match s.reader with
  | .sending au => au.keyframe && queueCapacity ≤ s.queue.length
  | _ => false

/-- The task does not leave its loop while the reader waits for room; from then on no keyframe
meets a full queue; and the keeper is dropped only once the reader has opened the FIFO. -/
def Pipeline.unblocks (s : Pipeline) : PipelineEvent → Bool
  | .leave | .written false => !s.blocked
  | .demux au => s.task.stage = 0 || !au.keyframe || s.queue.length < queueCapacity
  | .dropKeeper => s.reader ≠ .opening
  | _ => true

/-- What holds in every run. -/
structure Ordered (s : Pipeline) : Prop where
  recorder : 3 ≤ s.task.stage → s.recorder = .gone
  keeper : 4 ≤ s.task.stage → s.keeper = false
  reader : 5 ≤ s.task.stage → s.reader = .finished

/-- What the condition adds. -/
structure Free (s : Pipeline) : Prop extends Ordered s where
  unblocked : 1 ≤ s.task.stage → s.blocked = false
  opened : 4 ≤ s.task.stage → s.reader ≠ .opening

/-- All that a step can do. -/
inductive Pipeline.Goes (s : Pipeline) : PipelineEvent → Pipeline → Prop
  | reads (e : PipelineEvent) {r : Reader} {q : List NalUnit} {hd : List (NalUnit × Bool)}
      (hf : s.reader ≠ .finished) (ho : r ≠ .opening) (hr : ∀ au, r ≠ .sending au) :
    Goes s e { s with reader := r, queue := q, handled := hd }
  | demux (au : NalUnit) (hr : s.reader = .demuxing) :
    Goes s (.demux au) { s with reader := .sending au }
  | loops (e : PipelineEvent) {k : Task} {q tk : List NalUnit} (h : s.task.stage = 0)
      (hk : k.stage = 0) : Goes s e { s with task := k, queue := q, taken := tk }
  | leaves (e : PipelineEvent) (h : s.task.stage = 0) (he : e = .leave ∨ e = .written false) :
    Goes s e { s with task := .setFlag }
  | setFlag (h : s.task = .setFlag) :
    Goes s .setFlag { s with task := .killRecorder, stop := true }
  | killRecorder (h : s.task = .killRecorder) :
    Goes s .killRecorder { s with task := .dropKeeper, recorder := .gone }
  | dropKeeper (h : s.task = .dropKeeper) :
    Goes s .dropKeeper { s with task := .join, keeper := false }
  | join (h : s.task = .join) (hf : s.reader = .finished) : Goes s .join { s with task := .unlink }
  | unlink (h : s.task = .unlink) : Goes s .unlink { s with task := .stopped }
  | recorder (e : PipelineEvent) {r : Recorder} (hg : s.recorder ≠ .gone) :
    Goes s e { s with recorder := r }

theorem Pipeline.reading_reader {s : Pipeline} (h : s.reading = true) : s.reader ≠ .finished := by
  intro hf
  rw [reading, hf] at h
  cases h

theorem Pipeline.goes {s : Pipeline} (h : s.step e = some t) : s.Goes e t := by
  cases e with
  | «open» =>
    obtain ⟨⟨hr, -⟩, h⟩ := Option.ite_none_right_eq_some.1 h
    cases h
    exact .reads _ (by simp [hr]) (by simp) (by simp)
  | header =>
    obtain ⟨hr, h⟩ := Option.ite_none_right_eq_some.1 h
    cases h
    exact .reads _ (by simp [hr]) (by simp) (by simp)
  | check =>
    obtain ⟨hr, h⟩ := Option.ite_none_right_eq_some.1 h
    cases h
    apply Goes.reads
    · simp [hr]
    · cases s.stop <;> simp
    · cases s.stop <;> simp
  | demux au =>
    obtain ⟨hr, h⟩ := Option.ite_none_right_eq_some.1 h
    cases h
    exact .demux au hr
  | broken =>
    obtain ⟨hr, h⟩ := Option.ite_none_right_eq_some.1 h
    cases h
    exact .reads _ (reading_reader hr) (by simp) (by simp)
  | eof =>
    obtain ⟨⟨hr, -⟩, h⟩ := Option.ite_none_right_eq_some.1 h
    cases h
    exact .reads _ (reading_reader hr) (by simp) (by simp)
  | send =>
    cases hr : s.reader with
    | sending au =>
      simp only [step, hr] at h
      split at h
      · cases h
        exact .reads _ (by simp [hr]) (by simp) (by simp)
      · split at h
        · cases h
        · cases h
          exact .reads _ (by simp [hr]) (by simp) (by simp)
    | _ =>
      simp only [step, hr] at h
      cases h
  | recv =>
    cases ht : s.task with
    | receiving =>
      cases hq : s.queue with
      | nil =>
        simp only [step, ht, hq] at h
        cases h
      | cons au queue =>
        simp only [step, ht, hq] at h
        cases h
        exact .loops _ (congrArg Task.stage ht) rfl
    | _ =>
      simp only [step, ht] at h
      cases h
  | frame reply =>
    obtain ⟨ht, h⟩ := Option.ite_none_right_eq_some.1 h
    cases h
    cases reply <;> exact .loops _ (congrArg Task.stage ht) rfl
  | written ok =>
    obtain ⟨ht, h⟩ := Option.ite_none_right_eq_some.1 h
    cases h
    cases ok with
    | true => exact .loops _ (congrArg Task.stage ht) rfl
    | false => exact .leaves _ (congrArg Task.stage ht) (.inr rfl)
  | leave =>
    obtain ⟨ht, h⟩ := Option.ite_none_right_eq_some.1 h
    cases h
    exact .leaves _ (congrArg Task.stage ht) (.inl rfl)
  | setFlag =>
    obtain ⟨ht, h⟩ := Option.ite_none_right_eq_some.1 h
    cases h
    exact .setFlag ht
  | killRecorder =>
    obtain ⟨ht, h⟩ := Option.ite_none_right_eq_some.1 h
    cases h
    exact .killRecorder ht
  | dropKeeper =>
    obtain ⟨ht, h⟩ := Option.ite_none_right_eq_some.1 h
    cases h
    exact .dropKeeper ht
  | join =>
    obtain ⟨⟨ht, hf⟩, h⟩ := Option.ite_none_right_eq_some.1 h
    cases h
    exact .join ht hf
  | unlink =>
    obtain ⟨ht, h⟩ := Option.ite_none_right_eq_some.1 h
    cases h
    exact .unlink ht
  | recorderOpen =>
    obtain ⟨hr, h⟩ := Option.ite_none_right_eq_some.1 h
    cases h
    exact .recorder _ (by simp [hr])
  | recorderExit =>
    obtain ⟨hr, h⟩ := Option.ite_none_left_eq_some.1 h
    cases h
    exact .recorder _ hr

theorem Ordered.step (hs : Ordered s) (h : s.step e = some t) : Ordered t := by
  cases Pipeline.goes h with
  | reads _ hf =>
    have h5 : ¬5 ≤ s.task.stage := by
      intro h5
      exact hf (hs.reader h5)
    exact ⟨hs.recorder, hs.keeper, fun h => absurd h h5⟩
  | demux au hr =>
    have h5 : ¬5 ≤ s.task.stage := by
      intro h5
      cases hr.symm.trans (hs.reader h5)
    exact ⟨hs.recorder, hs.keeper, fun h => absurd h h5⟩
  | loops _ h0 hk => constructor <;> simp [hk]
  | leaves | setFlag | killRecorder => constructor <;> simp [Task.stage]
  | dropKeeper ht =>
    have hg : s.recorder = .gone := hs.recorder (by simp [ht, Task.stage])
    exact ⟨fun _ => hg, fun _ => rfl, by simp [Task.stage]⟩
  | join ht hf =>
    have hg : s.recorder = .gone := hs.recorder (by simp [ht, Task.stage])
    have hk : s.keeper = false := hs.keeper (by simp [ht, Task.stage])
    exact ⟨fun _ => hg, fun _ => hk, fun _ => hf⟩
  | unlink ht =>
    have hg : s.recorder = .gone := hs.recorder (by simp [ht, Task.stage])
    have hk : s.keeper = false := hs.keeper (by simp [ht, Task.stage])
    have hf : s.reader = .finished := hs.reader (by simp [ht, Task.stage])
    exact ⟨fun _ => hg, fun _ => hk, fun _ => hf⟩
  | recorder _ hg =>
    have h3 : ¬3 ≤ s.task.stage := by
      intro h3
      exact hg (hs.recorder h3)
    exact ⟨fun h => absurd h h3, hs.keeper, hs.reader⟩

theorem Pipeline.blocked_eq_false {s : Pipeline} (h : ∀ au, s.reader ≠ .sending au) :
    s.blocked = false := by
  rw [blocked]
  split
  · next au hr => exact absurd hr (h au)
  · rfl

theorem Free.step_unblocked (hs : Free s) (hu : s.unblocks e = true) (h : s.step e = some t) :
    1 ≤ t.task.stage → t.blocked = false := by
  cases Pipeline.goes h with
  | reads _ _ _ hr =>
    intro _
    exact Pipeline.blocked_eq_false hr
  | demux au hr =>
    intro h1
    have h0 : ¬s.task.stage = 0 := Nat.ne_of_gt h1
    simp only [Pipeline.unblocks, h0, decide_false, Bool.false_or, Bool.or_eq_true,
      Bool.not_eq_true', decide_eq_true_eq] at hu
    simp only [Pipeline.blocked, Bool.and_eq_false_iff, decide_eq_false_iff_not, Nat.not_le]
    exact hu
  | loops _ h0 hk => simp [hk]
  | leaves _ h0 he =>
    intro _
    change s.blocked = false
    rcases he with rfl | rfl <;> simpa only [Pipeline.unblocks, Bool.not_eq_true'] using hu
  | setFlag ht | killRecorder ht | dropKeeper ht | join ht | unlink ht =>
    intro _
    exact hs.unblocked (by simp [ht, Task.stage])
  | recorder => exact hs.unblocked

theorem Free.step_opened (hs : Free s) (hu : s.unblocks e = true) (h : s.step e = some t) :
    4 ≤ t.task.stage → t.reader ≠ .opening := by
  cases Pipeline.goes h with
  | reads _ _ ho =>
    intro _
    exact ho
  | demux au hr => simp
  | loops _ h0 hk => simp [hk]
  | leaves | setFlag | killRecorder => simp [Task.stage]
  | dropKeeper =>
    intro _
    exact of_decide_eq_true hu
  | join ht | unlink ht =>
    intro _
    exact hs.opened (by simp [ht, Task.stage])
  | recorder => exact hs.opened

theorem Free.step (hs : Free s) (hu : s.unblocks e = true) (h : s.step e = some t) : Free t :=
  { hs.toOrdered.step h with
    unblocked := hs.step_unblocked hu h
    opened := hs.step_opened hu h }

theorem Ordered.writers (hs : Ordered s) (ht : s.task = .join) : s.writers = false := by
  have hk : s.keeper = false := hs.keeper (by simp [ht, Task.stage])
  have hg : s.recorder = .gone := hs.recorder (by simp [ht, Task.stage])
  rw [Pipeline.writers, hk, hg]
  rfl

theorem Free.not_deadlock (hs : Free s) : ¬Deadlock s := by
  rintro ⟨ht, hf, hstuck⟩
  have hw := hs.writers ht
  cases hr : s.reader with
  | opening => exact hs.opened (by simp [ht, Task.stage]) hr
  | header | demuxing =>
    have heof := hstuck .eof rfl
    simp only [Pipeline.step, Pipeline.reading, hr, hw] at heof
    cases heof
  | checking =>
    have hcheck := hstuck .check rfl
    simp only [Pipeline.step, hr] at hcheck
    cases hcheck
  | sending au =>
    have hsend := hstuck .send rfl
    have hb := hs.unblocked (by simp [ht, Task.stage])
    simp only [Pipeline.blocked, hr, Bool.and_eq_false_iff, decide_eq_false_iff_not,
      Nat.not_le] at hb
    simp only [Pipeline.step, hr] at hsend
    split at hsend
    · cases hsend
    · next hfull =>
      rcases hb with hk | hroom
      · rw [hk] at hsend
        cases hsend
      · exact hfull hroom
  | finished => exact hf hr

/-- With the task in `join`, a reader that waits for room or for a writer waits for ever. -/
theorem Ordered.deadlock (hs : Ordered s) (ht : s.task = .join)
    (hr : s.blocked = true ∨ s.reader = .opening) : Deadlock s := by
  have hw := hs.writers ht
  have hg := hs.recorder (by simp [ht, Task.stage])
  rcases hr with hb | hr
  · rw [Pipeline.blocked] at hb
    split at hb
    · next au hr =>
      obtain ⟨hk, hfull⟩ := Bool.and_eq_true_iff.1 hb
      have hfull : ¬s.queue.length < queueCapacity := Nat.not_lt.2 (of_decide_eq_true hfull)
      refine ⟨ht, by simp [hr], ?_⟩
      intro e he
      cases e with
      | header | demux | broken => cases he
      | _ => simp [Pipeline.step, Pipeline.reading, ht, hr, hg, hk, hfull]
    · cases hb
  · refine ⟨ht, by simp [hr], ?_⟩
    intro e he
    cases e with
    | header | demux | broken => cases he
    | _ => simp [Pipeline.step, Pipeline.reading, ht, hr, hg, hw]

theorem Pipeline.step_stop {s : Pipeline} (h1 : 1 ≤ s.task.stage) (h4 : s.task.stage < 4) :
    ∃ e t, s.step e = some t ∧ t.task.stage = s.task.stage + 1 ∧ t.blocked = s.blocked := by
  cases ht : s.task with
  | setFlag =>
    exact ⟨.setFlag, { s with task := .killRecorder, stop := true },
      by simp only [step, ht, ↓reduceIte], rfl, rfl⟩
  | killRecorder =>
    exact ⟨.killRecorder, { s with task := .dropKeeper, recorder := .gone },
      by simp only [step, ht, ↓reduceIte], rfl, rfl⟩
  | dropKeeper =>
    exact ⟨.dropKeeper, { s with task := .join, keeper := false },
      by simp only [step, ht, ↓reduceIte], rfl, rfl⟩
  | receiving | writing =>
    rw [ht] at h1
    cases h1
  | join | unlink | stopped =>
    rw [ht] at h4
    simp [Task.stage] at h4

theorem Ordered.reaches_deadlock (hs : Ordered s) (h1 : 1 ≤ s.task.stage)
    (h4 : s.task.stage ≤ 4) (hb : s.blocked = true) :
    ∃ es t, Run (Steps Pipeline.step) s es t ∧ Deadlock t := by
  induction hn : 4 - s.task.stage generalizing s with
  | zero =>
    have ht : s.task = .join := by
      cases ht : s.task <;> rw [ht] at hn h4 <;> simp_all [Task.stage]
    exact ⟨[], s, .nil s, hs.deadlock ht (.inl hb)⟩
  | succ n ih =>
    obtain ⟨e, t, he, hstage, hblocked⟩ := Pipeline.step_stop h1 (by omega)
    obtain ⟨es, u, hu, hd⟩ := ih (hs.step he) (by omega) (by omega) (hblocked ▸ hb) (by omega)
    exact ⟨e :: es, u, .cons he hu, hd⟩

/-- A step that does not keep the condition leads on to a deadlock. -/
theorem Ordered.step_deadlock (hs : Ordered s) (hu : s.unblocks e = false)
    (h : s.step e = some t) : ∃ es u, Run (Steps Pipeline.step) t es u ∧ Deadlock u := by
  have ht := hs.step h
  cases e with
  | demux au =>
    obtain ⟨hr, h⟩ := Option.ite_none_right_eq_some.1 h
    cases h
    simp only [Pipeline.unblocks, Bool.or_eq_false_iff, Bool.not_eq_false', decide_eq_false_iff_not,
      Nat.not_lt] at hu
    obtain ⟨⟨h0, hk⟩, hfull⟩ := hu
    have h5 : ¬5 ≤ s.task.stage := by
      intro h5
      cases hr.symm.trans (hs.reader h5)
    apply ht.reaches_deadlock (Nat.pos_of_ne_zero h0) (Nat.le_of_lt_succ (Nat.lt_of_not_le h5))
    simp only [Pipeline.blocked, hk, Bool.true_and, decide_eq_true_eq]
    exact hfull
  | leave =>
    obtain ⟨htask, h⟩ := Option.ite_none_right_eq_some.1 h
    cases h
    have hb : s.blocked = true := by simpa only [Pipeline.unblocks, Bool.not_eq_false'] using hu
    exact ht.reaches_deadlock (Nat.le_refl 1) (by simp [Task.stage]) hb
  | written ok =>
    cases ok with
    | true => cases hu
    | false =>
      obtain ⟨htask, h⟩ := Option.ite_none_right_eq_some.1 h
      cases h
      have hb : s.blocked = true := by simpa only [Pipeline.unblocks, Bool.not_eq_false'] using hu
      exact ht.reaches_deadlock (Nat.le_refl 1) (by simp [Task.stage]) hb
  | dropKeeper =>
    obtain ⟨htask, h⟩ := Option.ite_none_right_eq_some.1 h
    cases h
    have hr : s.reader = .opening := Decidable.not_not.1 (of_decide_eq_false hu)
    exact ⟨[], _, .nil _, ht.deadlock rfl (.inr hr)⟩
  | _ => cases hu

theorem Ordered.start : Ordered {} := by
  constructor <;> simp [Task.stage]

theorem Free.start : Free {} :=
  { Ordered.start with unblocked := by simp [Task.stage], opened := by simp [Task.stage] }

/-- As long as the task leaves its loop and drops the keeper only where the reader can go on, no
stop ends in a deadlock; after any other step one can be reached. -/
theorem stop_never_deadlocks (es : List PipelineEvent) (s : Pipeline)
    (h : Run (Steps Pipeline.step) {} es s) :
    (Run (Guard (fun s e => s.unblocks e = true) (Steps Pipeline.step)) {} es s → ¬Deadlock s) ∧
    ∀ e t, s.unblocks e = false → s.step e = some t →
      ∃ es' u, Run (Steps Pipeline.step) t es' u ∧ Deadlock u := by
  constructor
  · intro hg
    have hs : Free s := hg.invariant (fun _ _ _ hs hst => hs.step hst.1 hst.2) Free.start
    exact hs.not_deadlock
  · intro e t hu hst
    have hs : Ordered s := h.invariant (fun _ _ _ hs hst => hs.step hst) Ordered.start
    exact hs.step_deadlock hu hst

/-- The session ends while the reader waits for the next access unit. -/
def quietStop : List PipelineEvent :=
  [.open, .recorderOpen, .header, .check, .leave, .setFlag, .killRecorder, .dropKeeper]

theorem stop_never_deadlocks_reading :
    ∃ s, Run (Steps Pipeline.step) {} quietStop s ∧ s.task = .join ∧ ¬Deadlock s := by
  have hrun : (quietStop.foldlM (guarded (fun s e => s.unblocks e = true) Pipeline.step) {}).map
      (fun s => s.task) = some .join := by decide +kernel
  obtain ⟨s, hs, ht⟩ := Option.map_eq_some_iff.1 hrun
  have hg := run_guarded_iff.2 hs
  exact ⟨s, hg.of_guard, ht, (stop_never_deadlocks quietStop s hg.of_guard).1 hg⟩

/-- The client stalls until the queue is full and a keyframe is next, and then disconnects. -/
def stalledStop : List PipelineEvent :=
  .open :: .header :: (List.replicate 4 [.check, .demux ⟨false, 0, [1]⟩, .send]).flatten ++
    [.check, .demux ⟨true, 0, [5]⟩, .leave, .setFlag, .killRecorder, .dropKeeper]

theorem stop_deadlocks :
    ¬∀ es s, Run (Steps Pipeline.step) {} es s → ¬Deadlock s := by
  intro h
  have hrun : (stalledStop.foldlM Pipeline.step {}).map (fun s => (s.task, s.blocked)) =
      some (.join, true) := by decide +kernel
  obtain ⟨s, hs, ht⟩ := Option.map_eq_some_iff.1 hrun
  obtain ⟨ht, hb⟩ := Prod.mk.inj ht
  have hrun := run_steps_iff.2 hs
  have ho : Ordered s := hrun.invariant (fun _ _ _ hs hst => hs.step hst) Ordered.start
  exact h _ s hrun (ho.deadlock ht (.inl hb))

end DdrdeskHost
