import DdrdeskHost.Lib.Runs

namespace DdrdeskHost
set_option autoImplicit true

/-- Where a session stands in `Capture::start`, in `Capture::stop`, and in the second `stop` of
`Drop`, which follows an explicit one. -/
inductive Stage
  | idle
  | clear
  | make
  | keep
  | spawn
  | launch
  | running
  | stopping (explicit : Bool)
  | unlink (explicit : Bool)
  | dropping
  | closed
  deriving DecidableEq

/-- An open of the FIFO's path, and the object it found there. -/
inductive Opening
  | no
  | pending
  | done (found : Option Nat)
  deriving DecidableEq

/-- A session's capture: the FIFO it created, and what its three ends opened. -/
structure CaptureFifo where
  stage : Stage := .idle
  fifo : Option Nat := none
  keeper : Opening := .no
  reader : Opening := .no
  recorder : Opening := .no
  deriving DecidableEq

/-- The entry of the one path `capture.flv`, and the number of the next object. -/
structure DataDir where
  entry : Option Nat := none
  next : Nat := 0
  deriving DecidableEq

inductive FifoEvent
  | begin
  | clear
  | make
  | keep
  | spawn
  | launch (ok : Bool)
  | readerOpen
  | recorderOpen
  | stop (explicit : Bool)
  | join
  | unlink
  | drop
  deriving DecidableEq

/-- One system call of a session, its reader or its recorder. `mkfifo` refuses a path that exists;
where `start` fails after the reader was spawned, the reader goes on by itself. -/
def CaptureFifo.step (p : CaptureFifo) (g : DataDir) : FifoEvent → Option (CaptureFifo × DataDir)
  | .begin => if p.stage = .idle then some ({ p with stage := .clear }, g) else none
  | .clear =>
    if p.stage = .clear then some ({ p with stage := .make }, { g with entry := none }) else none
  | .make =>
    if p.stage = .make then
      match g.entry with
      | some _ => some ({ p with stage := .closed }, g)
      | none => some ({ p with stage := .keep, fifo := some g.next },
          { entry := some g.next, next := g.next + 1 })
    else none
  | .keep =>
    if p.stage = .keep then
      some ({ p with stage := if g.entry.isSome then .spawn else .closed,
                     keeper := .done g.entry }, g)
    else none
  | .spawn =>
    if p.stage = .spawn then some ({ p with stage := .launch, reader := .pending }, g) else none
  | .launch ok =>
    if p.stage = .launch then
      some (if ok then { p with stage := .running, recorder := .pending }
        else { p with stage := .closed }, g)
    else none
  | .readerOpen =>
    if p.reader = .pending then some ({ p with reader := .done g.entry }, g) else none
  | .recorderOpen =>
    if p.recorder = .pending then some ({ p with recorder := .done g.entry }, g) else none
  | .stop explicit =>
    if p.stage = .running then
      some ({ p with stage := .stopping explicit,
                     recorder := if p.recorder = .pending then .no else p.recorder }, g)
    else none
  | .join =>
    match p.stage with
    | .stopping explicit =>
      if p.reader = .pending then none else some ({ p with stage := .unlink explicit }, g)
    | _ => none
  | .unlink =>
    match p.stage with
    | .unlink explicit =>
      some ({ p with stage := if explicit then .dropping else .closed }, { g with entry := none })
    | _ => none
  | .drop =>
    if p.stage = .dropping then some ({ p with stage := .closed }, { g with entry := none })
    else none

/-- The events that remove the path. -/
def FifoEvent.removes : FifoEvent → Bool
  | clear | unlink | drop => true
  | _ => false

/-- The session has created its FIFO and has not removed it again. -/
def Stage.unstopped : Stage → Bool
  | keep | spawn | launch | running | stopping _ | unlink _ => true
  | _ => false

/-- The end opened the object that the session created, if it has opened any. -/
def Opening.Own (fifo : Option Nat) : Opening → Prop
  | done found => found.isSome = true ∧ found = fifo
  | _ => True

def CaptureFifo.Own (p : CaptureFifo) : Prop :=
  p.keeper.Own p.fifo ∧ p.reader.Own p.fifo ∧ p.recorder.Own p.fifo

section
variable {ι : Type*} [DecidableEq ι]

def fifoStep (s : (ι → CaptureFifo) × DataDir) (e : ι × FifoEvent) :
    Option ((ι → CaptureFifo) × DataDir) :=
  takeTurn CaptureFifo.step s e

/-- A session's end has opened another object than the session's own, or a session is about to
remove the FIFO of another one. -/
def Collision (s : (ι → CaptureFifo) × DataDir) : Prop :=
  (∃ i, ¬(s.1 i).Own) ∨
    ∃ i e, e.removes = true ∧ fifoStep s (i, e) ≠ none ∧
      ∃ j, j ≠ i ∧ (s.1 j).stage.unstopped = true ∧ s.2.entry.isSome = true ∧
        s.2.entry = (s.1 j).fifo

end

/-- Between the first step of `start` and the end of `Drop`, or with a reader yet to open. -/
def CaptureFifo.busy (p : CaptureFifo) : Bool :=
  (p.stage ≠ .idle && p.stage ≠ .closed) || p.reader = .pending

/-- A session begins only while no other one is busy. -/
def OneByOne {ι : Type*} (s : (ι → CaptureFifo) × DataDir) (e : ι × FifoEvent) : Prop :=
  e.2 = .begin → ∀ j, j ≠ e.1 → (s.1 j).busy = false

instance {ι : Type*} [Fintype ι] [DecidableEq ι] (s : (ι → CaptureFifo) × DataDir)
    (e : ι × FifoEvent) : Decidable (OneByOne s e) :=
  inferInstanceAs (Decidable (_ → ∀ j, j ≠ _ → _))

/-- The end opened this object, if it has opened any. -/
def Opening.Of (o : Nat) : Opening → Prop
  | done found => found = some o
  | _ => True

/-- A capture whose keeper is open, with its reader and its recorder. -/
def CaptureFifo.kept (stage : Stage) (o : Nat) (reader recorder : Opening) : CaptureFifo :=
  { stage := stage, fifo := some o, keeper := .done (some o), reader := reader,
    recorder := recorder }

/-- What a session and the path look like at each stage, while the sessions come one by one. -/
inductive Good (g : DataDir) : CaptureFifo → Prop
  | idle : Good g {}
  | clear : Good g { stage := .clear }
  | make (hn : g.entry = none) : Good g { stage := .make }
  | keep (hn : g.entry = some o) (ho : o < g.next) : Good g { stage := .keep, fifo := some o }
  | spawn (hn : g.entry = some o) (ho : o < g.next) : Good g (.kept .spawn o .no .no)
  | launch (hn : g.entry = some o) (ho : o < g.next) (hr : r.Of o) :
    Good g (.kept .launch o r .no)
  | running (hn : g.entry = some o) (ho : o < g.next) (hr : r.Of o) (hc : c.Of o) :
    Good g (.kept .running o r c)
  | stopping (hn : g.entry = some o) (ho : o < g.next) (hr : r.Of o) (hc : c.Of o)
      (hc' : c ≠ .pending) : Good g (.kept (.stopping b) o r c)
  | unlink (hn : g.entry = some o) (ho : o < g.next) (hr : r.Of o) (hr' : r ≠ .pending)
      (hc : c.Of o) (hc' : c ≠ .pending) : Good g (.kept (.unlink b) o r c)
  | dropping (ho : o < g.next) (hr : r.Of o) (hr' : r ≠ .pending) (hc : c.Of o)
      (hc' : c ≠ .pending) : Good g (.kept .dropping o r c)
  | detached (hn : g.entry = some o) (ho : o < g.next) : Good g (.kept .closed o .pending .no)
  | closed (ho : o < g.next) (hr : r.Of o) (hr' : r ≠ .pending) (hc : c.Of o)
      (hc' : c ≠ .pending) : Good g (.kept .closed o r c)

theorem pending_of_readerOpen (h : CaptureFifo.step p g .readerOpen = some x) :
    p.reader = .pending :=
  (Option.ite_none_right_eq_some.1 h).1

theorem pending_of_recorderOpen (h : CaptureFifo.step p g .recorderOpen = some x) :
    p.recorder = .pending :=
  (Option.ite_none_right_eq_some.1 h).1

theorem Good.step (hp : Good g p) (h : p.step g e = some (p', g')) : Good g' p' := by
  cases hp with
  | idle =>
    cases e with
    | «begin» =>
      cases h
      exact .clear
    | _ => cases h
  | clear =>
    cases e with
    | clear =>
      cases h
      exact .make rfl
    | _ => cases h
  | make hn =>
    cases e with
    | make =>
      simp only [CaptureFifo.step, hn, ↓reduceIte] at h
      cases h
      exact .keep rfl (Nat.lt_succ_self _)
    | _ => cases h
  | keep hn ho =>
    cases e with
    | keep =>
      simp only [CaptureFifo.step, hn, ↓reduceIte, Option.isSome_some] at h
      cases h
      exact .spawn hn ho
    | _ => cases h
  | spawn hn ho =>
    cases e with
    | spawn =>
      cases h
      exact .launch hn ho trivial
    | _ => cases h
  | @launch o r hn ho hr =>
    cases e with
    | launch ok =>
      cases ok with
      | true =>
        cases h
        exact .running hn ho hr trivial
      | false =>
        cases h
        cases r with
        | pending => exact .detached hn ho
        | no | done f =>
          exact .closed ho hr (by simp [CaptureFifo.kept]) trivial (by simp [CaptureFifo.kept])
    | readerOpen =>
      obtain ⟨-, h⟩ := Option.ite_none_right_eq_some.1 h
      cases h
      exact .launch hn ho hn
    | _ => cases h
  | @running o r c hn ho hr hc =>
    cases e with
    | readerOpen =>
      obtain ⟨-, h⟩ := Option.ite_none_right_eq_some.1 h
      cases h
      exact .running hn ho hn hc
    | recorderOpen =>
      obtain ⟨-, h⟩ := Option.ite_none_right_eq_some.1 h
      cases h
      exact .running hn ho hr hn
    | stop explicit =>
      cases h
      cases c with
      | pending => exact .stopping hn ho hr trivial (by simp [CaptureFifo.kept])
      | no => exact .stopping hn ho hr hc (by simp [CaptureFifo.kept])
      | done f => exact .stopping hn ho hr hc (by simp [CaptureFifo.kept])
    | _ => cases h
  | @stopping o r c b hn ho hr hc hc' =>
    cases e with
    | readerOpen =>
      obtain ⟨-, h⟩ := Option.ite_none_right_eq_some.1 h
      cases h
      exact .stopping hn ho hn hc hc'
    | recorderOpen => exact absurd (pending_of_recorderOpen h) hc'
    | join =>
      obtain ⟨hr', h⟩ := Option.ite_none_left_eq_some.1 h
      cases h
      exact .unlink hn ho hr hr' hc hc'
    | _ => cases h
  | @unlink o r c b hn ho hr hr' hc hc' =>
    cases e with
    | readerOpen => exact absurd (pending_of_readerOpen h) hr'
    | recorderOpen => exact absurd (pending_of_recorderOpen h) hc'
    | unlink =>
      cases h
      cases b with
      | true => exact .dropping ho hr hr' hc hc'
      | false => exact .closed ho hr hr' hc hc'
    | _ => cases h
  | @dropping o r c ho hr hr' hc hc' =>
    cases e with
    | readerOpen => exact absurd (pending_of_readerOpen h) hr'
    | recorderOpen => exact absurd (pending_of_recorderOpen h) hc'
    | drop =>
      cases h
      exact .closed ho hr hr' hc hc'
    | _ => cases h
  | detached hn ho =>
    cases e with
    | readerOpen =>
      cases h
      exact .closed ho hn (by simp) trivial (by simp [CaptureFifo.kept])
    | _ => cases h
  | @closed o r c ho hr hr' hc hc' =>
    cases e with
    | readerOpen => exact absurd (pending_of_readerOpen h) hr'
    | recorderOpen => exact absurd (pending_of_recorderOpen h) hc'
    | _ => cases h

theorem Opening.Of.own {r : Opening} (h : r.Of o) : r.Own (some o) := by
  cases r with
  | no | pending => trivial
  | done f =>
    have hf : f = some o := h
    exact ⟨by rw [hf]; rfl, hf⟩

theorem Good.own (h : Good g p) : p.Own := by
  cases h with
  | idle | clear | make | keep => exact ⟨trivial, trivial, trivial⟩
  | spawn | detached => exact ⟨⟨rfl, rfl⟩, trivial, trivial⟩
  | launch _ _ hr => exact ⟨⟨rfl, rfl⟩, hr.own, trivial⟩
  | running _ _ hr hc | stopping _ _ hr hc => exact ⟨⟨rfl, rfl⟩, hr.own, hc.own⟩
  | unlink _ _ hr _ hc => exact ⟨⟨rfl, rfl⟩, hr.own, hc.own⟩
  | dropping _ hr _ hc | closed _ hr _ hc => exact ⟨⟨rfl, rfl⟩, hr.own, hc.own⟩

theorem Good.quiet (h : Good g p) (hb : p.busy = false) (hg : g.next ≤ g'.next) : Good g' p := by
  cases h with
  | idle => exact .idle
  | closed ho hr hr' hc hc' => exact .closed (Nat.lt_of_lt_of_le ho hg) hr hr' hc hc'
  | _ => cases hb

theorem Good.busy (h : Good g p) (hne : e ≠ .begin) (hs : p.step g e = some r) :
    p.busy = true := by
  cases h with
  | idle =>
    cases e with
    | «begin» => exact absurd rfl hne
    | _ => cases hs
  | closed ho hr hr' hc hc' =>
    cases e with
    | readerOpen => exact absurd (pending_of_readerOpen hs) hr'
    | recorderOpen => exact absurd (pending_of_recorderOpen hs) hc'
    | _ => cases hs
  | _ => rfl

theorem Stage.unstopped_busy {p : CaptureFifo} (h : p.stage.unstopped = true) : p.busy = true := by
  rw [CaptureFifo.busy]
  cases hs : p.stage <;> rw [hs] at h <;> first | rfl | cases h

theorem CaptureFifo.step_next {p : CaptureFifo} (h : p.step g e = some (p', g')) :
    g.next ≤ g'.next := by
  cases e with
  | make =>
    obtain ⟨-, h⟩ := Option.ite_none_right_eq_some.1 h
    cases hn : g.entry with
    | none =>
      simp only [hn] at h
      cases h
      exact Nat.le_succ _
    | some o =>
      simp only [hn] at h
      cases h
      exact Nat.le_refl _
  | join =>
    simp only [step] at h
    split at h
    · obtain ⟨-, h⟩ := Option.ite_none_left_eq_some.1 h
      cases h
      exact Nat.le_refl _
    · cases h
  | unlink =>
    simp only [step] at h
    split at h
    · cases h
      exact Nat.le_refl _
    · cases h
  | _ =>
    obtain ⟨-, h⟩ := Option.ite_none_right_eq_some.1 h
    cases h
    exact Nat.le_refl _

section
variable {ι : Type*} {s t : (ι → CaptureFifo) × DataDir}

/-- At most one session is busy, and the path is as that one needs it. -/
structure Calm (s : (ι → CaptureFifo) × DataDir) : Prop where
  good : ∀ i, Good s.2 (s.1 i)
  single : ∀ i j, i ≠ j → (s.1 i).busy = true → (s.1 j).busy = false

theorem Calm.others (hs : Calm s) (ho : OneByOne s (i, e)) (h : (s.1 i).step s.2 e = some r)
    (hj : j ≠ i) : (s.1 j).busy = false := by
  by_cases he : e = .begin
  · exact ho he j hj
  · exact hs.single i j hj.symm ((hs.good i).busy he h)

variable [DecidableEq ι]

theorem Calm.step (hs : Calm s) (ho : OneByOne s e) (h : fifoStep s e = some t) : Calm t := by
  obtain ⟨i, x⟩ := e
  obtain ⟨⟨p, g⟩, hp, rfl⟩ := Option.map_eq_some_iff.1 h
  have hothers : ∀ j, j ≠ i → (s.1 j).busy = false := fun j hj => hs.others ho hp hj
  constructor
  · intro j
    by_cases hj : j = i
    · subst hj
      simpa only [Function.update_self] using (hs.good j).step hp
    · simpa only [Function.update_of_ne hj] using
        (hs.good j).quiet (hothers j hj) (CaptureFifo.step_next hp)
  · intro j k hjk hb
    by_cases hj : j = i
    · subst hj
      simpa only [Function.update_of_ne hjk.symm] using hothers k hjk.symm
    · simp only [Function.update_of_ne hj, hothers j hj] at hb
      cases hb

theorem Calm.no_collision (hs : Calm s) : ¬Collision s := by
  rintro (⟨i, hi⟩ | ⟨i, e, he, hstep, j, hj, hu, -, -⟩)
  · exact hi (hs.good i).own
  · obtain ⟨t, ht⟩ := Option.ne_none_iff_exists'.1 hstep
    obtain ⟨r, hr, -⟩ := Option.map_eq_some_iff.1 ht
    have hne : e ≠ .begin := by
      intro h
      rw [h] at he
      cases he
    have hb := hs.single i j hj.symm ((hs.good i).busy hne hr)
    rw [Stage.unstopped_busy hu] at hb
    cases hb

theorem creates (hi : t.1 i = { stage := .clear }) :
    ∃ es u, Run (Steps fifoStep) t es u ∧
      u.1 i = { stage := .keep, fifo := some t.2.next } ∧
      u.2 = { entry := some t.2.next, next := t.2.next + 1 } ∧ ∀ k, k ≠ i → u.1 k = t.1 k := by
  let g₁ : DataDir := { t.2 with entry := none }
  let s₁ := Function.update t.1 i { stage := .make }
  have h₁ : fifoStep t (i, .clear) = some (s₁, g₁) := takeTurn_eq (by rw [hi]; rfl)
  have h₂ : fifoStep (s₁, g₁) (i, .make) =
      some (Function.update s₁ i { stage := .keep, fifo := some t.2.next },
        { entry := some t.2.next, next := t.2.next + 1 }) :=
    takeTurn_eq (by simp only [s₁, Function.update_self]; rfl)
  have hother : ∀ k, k ≠ i →
      Function.update s₁ i { stage := .keep, fifo := some t.2.next } k = t.1 k := by
    intro k hk
    simp only [s₁, Function.update_of_ne hk]
  exact ⟨_, _, .cons h₁ (.single h₂), Function.update_self .., rfl, hother⟩

theorem collision_of_removes (he : e.removes = true) (hij : i ≠ j)
    (hstep : ((s.1 i).step s.2 e).isSome = true) (hu : (s.1 j).stage.unstopped = true)
    (hentry : s.2.entry.isSome = true) (hf : s.2.entry = (s.1 j).fifo) : Collision s := by
  have hne : fifoStep s (i, e) ≠ none := by
    obtain ⟨r, hr⟩ := Option.isSome_iff_exists.1 hstep
    rw [fifoStep, takeTurn, hr]
    simp
  exact .inr ⟨i, e, he, hne, j, hij.symm, hu, hentry, hf⟩

theorem Good.idle_eq (h : Good g p) (hs : p.stage = .idle) : p = {} := by
  cases h with
  | idle => rfl
  | _ => cases hs

/-- A session that begins while another one is busy can run into it: it removes the other one's
FIFO, or the other one removes its, or the other one's reader opens its. -/
theorem Calm.collides (hs : Calm s) (ho : ¬OneByOne s e) (h : fifoStep s e = some t) :
    ∃ es u, Run (Steps fifoStep) t es u ∧ Collision u := by
  obtain ⟨i, x⟩ := e
  simp only [OneByOne, not_forall, Bool.not_eq_false] at ho
  obtain ⟨rfl, j, hj, hb⟩ := ho
  obtain ⟨⟨p, g⟩, hp, rfl⟩ := Option.map_eq_some_iff.1 h
  obtain ⟨hidle, hp⟩ := Option.ite_none_right_eq_some.1 hp
  cases hp
  have hi := (hs.good i).idle_eq hidle
  simp only [hi]
  have hgood := hs.good j
  let t : (ι → CaptureFifo) × DataDir := (Function.update s.1 i { stage := .clear }, s.2)
  have hti : t.1 i = { stage := .clear } := Function.update_self ..
  have htj : t.1 j = s.1 j := Function.update_of_ne hj ..
  obtain ⟨es, u, hrun, hui, hug, huk⟩ := creates hti
  have huj : u.1 j = s.1 j := (huk j hj).trans htj
  -- the new session's next step removes a path that another session uses
  have hclear {o : Nat} (hn : s.2.entry = some o) (hu : (s.1 j).stage.unstopped = true)
      (hf : (s.1 j).fifo = some o) : Collision t :=
    collision_of_removes (e := .clear) rfl hj.symm (by rw [hti]; rfl) (by rw [htj]; exact hu)
      (by rw [hn]; rfl) (by rw [htj]; exact hn.trans hf.symm)
  -- the other session still has to remove the path, after the new one made its FIFO
  have hremove (x : FifoEvent) (hx : x.removes = true)
      (hstep : ((s.1 j).step u.2 x).isSome = true) : Collision u :=
    collision_of_removes hx hj (by rw [huj]; exact hstep) (by rw [hui]; rfl) (by rw [hug]; rfl)
      (by rw [hug, hui])
  generalize hq : s.1 j = q at *
  cases hgood with
  | idle => cases hb
  | clear => exact ⟨es, u, hrun, hremove .clear rfl rfl⟩
  | make hn =>
    -- the other session makes its FIFO first
    have hmake : fifoStep t (j, .make) =
        some (Function.update t.1 j { stage := .keep, fifo := some s.2.next },
          { entry := some s.2.next, next := s.2.next + 1 }) :=
      takeTurn_eq (by rw [htj]; simp only [CaptureFifo.step, t, hn, ↓reduceIte])
    refine ⟨[(j, .make)], _, .single hmake, ?_⟩
    apply collision_of_removes (e := .clear) rfl hj.symm
    · simp only [Function.update_of_ne hj.symm, hti]
      rfl
    · simp only [Function.update_self]
      rfl
    · rfl
    · simp only [Function.update_self]
  | keep hn | spawn hn | launch hn | running hn | stopping hn | unlink hn =>
    exact ⟨[], t, .nil t, hclear hn rfl rfl⟩
  | dropping => exact ⟨es, u, hrun, hremove .drop rfl rfl⟩
  | @detached o hn hlt =>
    -- the other session's reader opens the new FIFO
    have hopen : Steps fifoStep u (j, .readerOpen)
        (Function.update u.1 j (.kept .closed o (.done (some s.2.next)) .no), u.2) :=
      takeTurn_eq (by rw [huj, hug]; rfl)
    refine ⟨es ++ [(j, .readerOpen)], _, hrun.append (.single hopen), .inl ⟨j, ?_⟩⟩
    simp only [Function.update_self]
    rintro ⟨-, ⟨-, hf⟩, -⟩
    exact absurd (Option.some.inj hf) (Nat.ne_of_gt hlt)
  | closed ho hr hr' =>
    simp only [CaptureFifo.busy, CaptureFifo.kept, ne_eq, not_true_eq_false, decide_false,
      Bool.and_false, Bool.false_or] at hb
    exact absurd (of_decide_eq_true hb) hr'

/-- No session has begun, and there is a file at the path or none. -/
def fifoStart (entry : Option Nat) : (ι → CaptureFifo) × DataDir :=
  (fun _ => {}, { entry := entry, next := entry.elim 0 (· + 1) })

end

/-- While sessions begin one by one, every end of a capture opens the FIFO of its own session, and
no session removes that of another one; a session that begins at any other time can do so. -/
theorem capture_fifo_own {ι : Type*} [DecidableEq ι] (entry : Option Nat) :
    (∀ es (s : (ι → CaptureFifo) × DataDir),
      Run (Guard OneByOne (Steps fifoStep)) (fifoStart entry) es s → ¬Collision s) ∧
    ∀ es s e (t : (ι → CaptureFifo) × DataDir),
      Run (Guard OneByOne (Steps fifoStep)) (fifoStart entry) es s → ¬OneByOne s e →
        fifoStep s e = some t → ∃ es' u, Run (Steps fifoStep) t es' u ∧ Collision u := by
  have hcalm : ∀ es (s : (ι → CaptureFifo) × DataDir),
      Run (Guard OneByOne (Steps fifoStep)) (fifoStart entry) es s → Calm s := by
    intro es s h
    apply h.invariant
    · intro s e t hs hst
      exact hs.step hst.1 hst.2
    · exact ⟨fun _ => .idle, by simp [fifoStart, CaptureFifo.busy]⟩
  constructor
  · intro es s h
    exact (hcalm es s h).no_collision
  · intro es s e t h ho hst
    exact (hcalm es s h).collides ho hst

def started : List FifoEvent :=
  [.begin, .clear, .make, .keep, .spawn, .launch true, .readerOpen, .recorderOpen]

def ended : List FifoEvent := [.stop true, .join, .unlink, .drop]

/-- The second session begins after the first one has been dropped. -/
def oneAfterTheOther : List (Bool × FifoEvent) :=
  (started ++ ended).map (false, ·) ++ started.map (true, ·)

theorem capture_fifo_own_in_turn :
    ∃ s, Run (Steps fifoStep) (fifoStart none) oneAfterTheOther s ∧
      (s.1 true).recorder = .done (some 1) ∧ ¬Collision s := by
  have hrun : (oneAfterTheOther.foldlM (guarded OneByOne fifoStep) (fifoStart none)).map
      (fun s => (s.1 true).recorder) = some (.done (some 1)) := by decide +kernel
  obtain ⟨s, hs, hp⟩ := Option.map_eq_some_iff.1 hrun
  have hg := run_guarded_iff.2 hs
  exact ⟨s, hg.of_guard, hp, (capture_fifo_own none).1 _ s hg⟩

/-- A second session begins while the first one streams. -/
def oneDuringTheOther : List (Bool × FifoEvent) := started.map (false, ·) ++ [(true, .begin)]

theorem capture_fifo_removed :
    ¬∀ es (s : (Bool → CaptureFifo) × DataDir),
      Run (Steps fifoStep) (fifoStart none) es s → ¬Collision s := by
  intro h
  have hrun : (oneDuringTheOther.foldlM fifoStep (fifoStart none)).map
      (fun s => (s.1 false, s.1 true, s.2)) =
      some (.kept .running 0 (.done (some 0)) (.done (some 0)), { stage := .clear },
        { entry := some 0, next := 1 }) := by decide +kernel
  obtain ⟨s, hs, hp⟩ := Option.map_eq_some_iff.1 hrun
  simp only [Prod.mk.injEq] at hp
  obtain ⟨h₀, h₁, hg⟩ := hp
  apply h _ s (run_steps_iff.2 hs)
  apply collision_of_removes (e := .clear) (i := true) (j := false) rfl (by decide)
  · rw [h₁]
    rfl
  · rw [h₀]
    rfl
  · rw [hg]
    rfl
  · rw [hg, h₀]
    rfl

end DdrdeskHost
