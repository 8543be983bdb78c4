import DdrdeskHost.Recording
import DdrdeskHost.SessionOutput
import DdrdeskHost.Sharing

namespace DdrdeskHost
set_option autoImplicit true

/-- The step belongs to the select loop of the session. -/
def PipelineEvent.ofLoop : PipelineEvent → Bool
  | recv | frame _ | written _ | leave => true
  | _ => false

/-- The access unit that a step of the reader puts on the channel. -/
def Pipeline.offered (s : Pipeline) : PipelineEvent → Option NalUnit
  | .send =>
    match s.reader with
    | .sending au => if s.queue.length < queueCapacity then some au else none
    | _ => none
  | _ => none

/-- What a step of the select loop, which goes on in this phase, is to the pipeline. -/
def loopEvents (p : Phase) : Event → List PipelineEvent
  | .recv a => [.recv, .written (a.write = .done)]
  | _ => if p.streams then [] else [.leave]

/-- A session, with the record of what it did, and the capture that it started. -/
structure Relay where
  session : (Conn × List Effect) × List Processed := (({}, []), [])
  recording : Option Recording := none
  deriving DecidableEq

/-- A step of the session; of the reader thread, the recorder or `Capture::stop`; or bytes that the
recorder writes. -/
inductive RelayEvent
  | session (e : Event)
  | capture (e : PipelineEvent)
  | record (chunk : List UInt8)

namespace Relay

def phase (s : Relay) : Phase := s.session.1.1.phase

/-- The capture's part in a step of its session: it starts with the loop and takes part in it, and
`Capture::stop` returns when it is down. -/
def follow (p p' : Phase) (e : Event) (r : Option Recording) : Option (Option Recording) :=
  match p with
  | .connected .. => some (if p'.streams then some {} else r)
  | .streaming _ =>
    r.bind fun r =>
      ((loopEvents p' e).foldlM Pipeline.step r.pipe).map fun q => some { r with pipe := q }
  | .stopping =>
    if p' = .stopping then some r
    else r.bind fun r => if r.pipe.task = .stopped then some (some r) else none
  | _ => some r

section
variable (H : HostState) (S : Serde) (addr : IpAddr)

/-- A unit on the channel waits for the session as long as it is in its loop. -/
def deliver (s : Relay) : Option NalUnit → Option ((Conn × List Effect) × List Processed)
  | some au => if s.phase.streams then Conn.journal H S addr s.session (.enqueue au)
    else some s.session
  | none => some s.session

def step (s : Relay) : RelayEvent → Option Relay
  | .session (.enqueue _) => none
  | .session e =>
    (Conn.journal H S addr s.session e).bind fun t =>
      (follow s.phase t.1.1.phase e s.recording).map fun r => { session := t, recording := r }
  | .capture e =>
    if e.ofLoop then none
    else
      s.recording.bind fun r => (r.step e).bind fun r' =>
        (s.deliver H S addr (r.pipe.offered e)).map fun t => { session := t, recording := some r' }
  | .record chunk =>
    s.recording.bind fun r => (r.record chunk).map fun r' => { s with recording := some r' }

end

end Relay

/-- The bytes that the recorder has written. -/
def recorded (es : List RelayEvent) : List UInt8 :=
  es.flatMap fun
    | .record chunk => chunk
    | _ => []

/-- The access units that the select loop has taken from the channel. -/
def dequeued (ps : List Processed) : List NalUnit :=
  ps.filterMap fun
    | .unit au => some au
    | .frame _ => none

/-- The session has a capture. -/
def Phase.captured : Phase → Bool
  | .streaming _ | .stopping | .restoring | .disconnecting | .finishing => true
  | _ => false

/-- `Capture::stop` has returned. -/
def Phase.captureDown : Phase → Bool
  | .restoring | .disconnecting | .finishing => true
  | _ => false

/-- The capture and the session agree about the channel and about where they stand. -/
structure Relay.Linked (s : Relay) (r : Recording) : Prop where
  taken : r.pipe.taken = dequeued s.session.2
  streaming : ∀ l, s.phase = .streaming l → r.pipe.task = .receiving ∧ r.pipe.queue = l.queue
  left : s.phase.streams = false → 1 ≤ r.pipe.task.stage
  down : s.phase.captureDown = true → r.pipe.task = .stopped
  past : s.phase.captured = true ∨ s.phase = .returned

@[simp] theorem recorded_append (es es' : List RelayEvent) :
    recorded (es ++ es') = recorded es ++ recorded es' := List.flatMap_append

@[simp] theorem dequeued_append (ps qs : List Processed) :
    dequeued (ps ++ qs) = dequeued ps ++ dequeued qs := List.filterMap_append

theorem Pipeline.step_outside {s : Pipeline} (h : s.step e = some t) (he : e.ofLoop = false) :
    t.taken = s.taken ∧ t.queue = s.queue ++ (s.offered e).toList ∧
      (s.task = .receiving → t.task = .receiving) ∧
      (1 ≤ s.task.stage → 1 ≤ t.task.stage) ∧ (s.task = .stopped → t.task = .stopped) := by
  cases e with
  | recv | frame | written | leave => cases he
  | send =>
    rw [step] at h
    split at h
    · next au hr =>
      split at h
      · next hroom =>
        cases h
        have ho : s.offered .send = some au := by simp only [offered, hr, hroom, ↓reduceIte]
        exact ⟨rfl, by rw [ho]; rfl, id, id, id⟩
      · next hroom =>
        split at h
        · cases h
        · cases h
          have ho : s.offered .send = none := by simp only [offered, hr, hroom, ↓reduceIte]
          exact ⟨rfl, by rw [ho]; exact (List.append_nil _).symm, id, id, id⟩
    · cases h
  | setFlag | killRecorder | dropKeeper | unlink =>
    obtain ⟨ht, h⟩ := Option.ite_none_right_eq_some.1 h
    cases h
    refine ⟨rfl, (List.append_nil _).symm, ?_, ?_, ?_⟩ <;> simp [ht, Task.stage]
  | join =>
    obtain ⟨⟨ht, -⟩, h⟩ := Option.ite_none_right_eq_some.1 h
    cases h
    refine ⟨rfl, (List.append_nil _).symm, ?_, ?_, ?_⟩ <;> simp [ht, Task.stage]
  | recorderExit =>
    obtain ⟨-, h⟩ := Option.ite_none_left_eq_some.1 h
    cases h
    exact ⟨rfl, (List.append_nil _).symm, id, id, id⟩
  | _ =>
    obtain ⟨-, h⟩ := Option.ite_none_right_eq_some.1 h
    cases h
    exact ⟨rfl, (List.append_nil _).symm, id, id, id⟩

theorem dispatch_queue (h : (dispatch S l f a).1 = .streaming l') : l'.queue = l.queue := by
  have hd := dispatches S l f a
  generalize (dispatch S l f a).1 = p, (dispatch S l f a).2 = es at hd h
  cases hd with
  | badViewport | pongFailed | goodbye => cases h
  | _ =>
    cases h
    rfl

/-- The pipeline after a step of the select loop. -/
structure Pipeline.Followed (s t : Pipeline) (p : Phase) (us : List NalUnit) : Prop where
  reader : t.reader = s.reader
  taken : t.taken = s.taken ++ us
  streaming : ∀ l, p = .streaming l → t.task = .receiving ∧ t.queue = l.queue
  left : p.streams = false → 1 ≤ t.task.stage

theorem Pipeline.step_leave {s : Pipeline} (h : s.task = .receiving) :
    s.step .leave = some { s with task := .setFlag } := by
  simp only [step, h, ↓reduceIte]

theorem Pipeline.followed_of_not_recv {s : Pipeline} (ht : s.task = .receiving)
    (he : loopEvents p e = if p.streams then [] else [.leave])
    (hq : ∀ l, p = .streaming l → s.queue = l.queue) :
    ∃ t, (loopEvents p e).foldlM Pipeline.step s = some t ∧ s.Followed t p [] := by
  rw [he]
  by_cases hp : p.streams = true
  · rw [if_pos hp]
    refine ⟨s, rfl, rfl, (List.append_nil _).symm, fun l hl => ⟨ht, hq l hl⟩, ?_⟩
    intro hs
    cases hp.symm.trans hs
  · rw [if_neg hp, List.foldlM_cons, step_leave ht]
    refine ⟨_, rfl, rfl, (List.append_nil _).symm, ?_, fun _ => Nat.le_refl 1⟩
    rintro l rfl
    exact absurd rfl hp

theorem Pipeline.followed_recv {s : Pipeline} (ht : s.task = .receiving) (hq : s.queue = au :: q)
    (hl : l.queue = q) (a : Answer) :
    ∃ t, (loopEvents (onVideo l au a).1 (.recv a)).foldlM Pipeline.step s = some t ∧
      s.Followed t (onVideo l au a).1 [au] := by
  have hrecv : s.step .recv =
      some { s with task := .writing, queue := q, taken := s.taken ++ [au] } := by
    simp only [step, ht, hq]
  have hwritten (ok : Bool) :
      Pipeline.step { s with task := .writing, queue := q, taken := s.taken ++ [au] }
        (.written ok) = some { s with task := if ok then .receiving else .setFlag, queue := q,
                                      taken := s.taken ++ [au] } := by
    simp only [step, ↓reduceIte]
  rw [loopEvents, List.foldlM_cons, hrecv, Option.bind_eq_bind, Option.bind_some,
    List.foldlM_cons, hwritten, onVideo]
  cases hw : a.write with
  | done =>
    refine ⟨_, rfl, rfl, rfl, ?_, by simp [Phase.streams]⟩
    rintro l' he
    cases he
    exact ⟨by simp, hl.symm⟩
  | failed n => exact ⟨_, rfl, rfl, rfl, by simp, fun _ => by simp [Task.stage]⟩

section
variable {H : HostState} {S : Serde} {addr : IpAddr} {c c' : Conn}

theorem Conn.Goes.followed {s : Pipeline} (hg : c.Goes H S addr e p es)
    (hp : c.phase = .streaming l) (he : ∀ au, e ≠ .enqueue au) (ht : s.task = .receiving)
    (hq : s.queue = l.queue) :
    ∃ t, (loopEvents p e).foldlM Pipeline.step s = some t ∧
      s.Followed t p (dequeued (c.processes e)) := by
  have hsame : ∀ l', c.phase = .streaming l' → s.queue = l'.queue := by
    intro l' hl
    cases hp.symm.trans hl
    exact hq
  cases hg with
  | arrived chunk | ended => exact s.followed_of_not_recv ht rfl hsame
  | pending a hne hf =>
    rw [processes_unread (by simp [hf])]
    exact s.followed_of_not_recv ht rfl hsame
  | queued au => exact absurd rfl (he au)
  | hello a hh | gone a hh => cases hp.symm.trans hh
  | frame a hs hf =>
    cases hp.symm.trans hs
    rw [processes_frame hp hf]
    exact s.followed_of_not_recv ht rfl fun l' hl => hq.trans (dispatch_queue hl).symm
  | left a hs hf =>
    have hunread : ∀ f rest, c.fut.poll c.arrived ≠ .ready f rest := by
      rcases hf with ⟨e, hf⟩ | ⟨⟨fut, hf⟩, -⟩
      · simp [hf]
      · simp [hf]
    rw [processes_unread hunread]
    exact s.followed_of_not_recv ht rfl (by simp)
  | video a hs hv =>
    cases hp.symm.trans hs
    rw [processes_unit hp hv]
    exact s.followed_recv ht (hq.trans hv) rfl a
  | next a hn =>
    rw [hp] at hn
    cases hn

theorem Conn.processes_of_not_streams (hp : c.phase.streams = false) (e : Event) :
    c.processes e = [] := by
  have hne : ∀ l, c.phase ≠ .streaming l := by
    intro l hs
    rw [hs] at hp
    cases hp
  cases e with
  | recv a =>
    rw [processes]
    split
    · next hs => exact absurd hs (hne _)
    · rfl
  | read a =>
    rw [processes]
    split
    · next hs _ => exact absurd hs (hne _)
    · rfl
  | _ => rfl

theorem Conn.Goes.uncaptured (hg : c.Goes H S addr e p es) (hp : c.phase.captured = false)
    (hc : p.captured = true) :
    (∃ vp enc, c.phase = .connected vp enc) ∧ ∃ l, p = .streaming l ∧ l.queue = [] := by
  cases hg with
  | arrived | ended | pending => cases hp.symm.trans hc
  | queued au hs | frame a hs | left a hs | video a hs =>
    rw [hs] at hp
    cases hp
  | @hello f rest a =>
    rcases onHello_cases H S f with h | h | ⟨vp, h⟩ <;> rw [h] at hc <;> cases hc
  | gone => cases hc
  | next a hn =>
    have hpr := proceeds hn
    generalize c.phase = q at hpr hp
    cases hpr with
    | streaming => exact ⟨⟨_, _, rfl⟩, _, rfl, rfl⟩
    | stopped | restored | disconnected | finished => cases hp
    | _ => cases hc

theorem Conn.Goes.loops (hg : c.Goes H S addr e p es) (hp : c.phase = .streaming l) :
    p.captureDown = false ∧ (p.captured = true ∨ p = .returned) := by
  cases hg with
  | arrived | ended | pending =>
    rw [hp]
    exact ⟨rfl, .inl rfl⟩
  | queued | left => exact ⟨rfl, .inl rfl⟩
  | hello a h | gone a h => cases hp.symm.trans h
  | @frame l f _ a =>
    have hd := dispatches S l f a
    generalize (dispatch S l f a).1 = q, (dispatch S l f a).2 = qs at hd ⊢
    cases hd with
    | badViewport | pongFailed => exact ⟨rfl, .inr rfl⟩
    | _ => exact ⟨rfl, .inl rfl⟩
  | video a h hq =>
    rw [onVideo]
    split <;> exact ⟨rfl, .inl rfl⟩
  | next a hn =>
    rw [hp] at hn
    cases hn

theorem Conn.Goes.teardown (hg : c.Goes H S addr e p es) (hp : c.phase.captured = true)
    (hs : c.phase.streams = false) :
    p.streams = false ∧ (p.captured = true ∨ p = .returned) ∧
      (p.captureDown = true → c.phase.captureDown = true ∨ c.phase = .stopping ∧ p ≠ .stopping) ∧
      (c.phase.captureDown = true → p.captureDown = true ∨ p = .returned) := by
  cases hg with
  | arrived | ended | pending => exact ⟨hs, .inl hp, .inl, .inl⟩
  | queued au h | frame a h | left a h | video a h =>
    rw [h] at hs
    cases hs
  | hello a h | gone a h =>
    rw [h] at hp
    cases hp
  | next a hn =>
    have hpr := proceeds hn
    generalize c.phase = q at hpr hp
    cases hpr with
    | stopped => exact ⟨rfl, .inl rfl, fun _ => .inr ⟨rfl, by simp⟩, fun _ => .inl rfl⟩
    | restored | disconnected => exact ⟨rfl, .inl rfl, fun _ => .inl rfl, fun _ => .inl rfl⟩
    | finished => exact ⟨rfl, .inr rfl, fun _ => .inl rfl, fun _ => .inr rfl⟩
    | _ => cases hp

theorem Conn.journal_goes (h : Conn.journal H S addr t e = some t') :
    ∃ es, t.1.1.Goes H S addr e t'.1.1.phase es ∧ t'.1.2 = t.1.2 ++ es ∧
      t'.2 = t.2 ++ t.1.1.processes e := by
  obtain ⟨u, htrace, he⟩ := Option.map_eq_some_iff.1 h
  obtain ⟨⟨c', es⟩, hstep, hu⟩ := Option.map_eq_some_iff.1 htrace
  cases he
  cases hu
  exact ⟨es, Conn.goes hstep, rfl, rfl⟩

end

theorem demuxed_loopEvents (p : Phase) (e : Event) : demuxed (loopEvents p e) = [] := by
  unfold loopEvents
  split
  · rfl
  · split
    · rfl
    · rfl

namespace Relay
variable {H : HostState} {S : Serde} {addr : IpAddr} {s s' : Relay} {r : Recording}

theorem Linked.loop (hl : s.Linked r) (hj : Conn.journal H S addr s.session e = some t)
    (he : ∀ au, e ≠ .enqueue au) (hp : s.phase = .streaming l) :
    ∃ q, follow s.phase t.1.1.phase e (some r) = some (some { r with pipe := q }) ∧
      q.reader = r.pipe.reader ∧
      (∃ pes, Run (Steps Pipeline.step) r.pipe pes q ∧ demuxed pes = []) ∧
      Linked { session := t, recording := some { r with pipe := q } } { r with pipe := q } := by
  obtain ⟨es, hg, -, hps⟩ := Conn.journal_goes hj
  obtain ⟨htask, hqueue⟩ := hl.streaming l hp
  obtain ⟨q, hq, hfol⟩ := hg.followed hp he htask hqueue
  obtain ⟨hdown, hpast⟩ := hg.loops hp
  refine ⟨q, ?_, hfol.reader, ⟨_, run_steps_iff.2 hq, demuxed_loopEvents _ _⟩, ?_⟩
  · rw [hp, follow, Option.bind_some, hq]
    rfl
  · constructor
    · rw [hps, dequeued_append, ← hl.taken]
      exact hfol.taken
    · exact hfol.streaming
    · exact hfol.left
    · intro h
      cases hdown.symm.trans h
    · exact hpast

theorem Linked.teardown (hl : s.Linked r) (hj : Conn.journal H S addr s.session e = some t)
    (hp : s.phase.streams = false)
    (hf : follow s.phase t.1.1.phase e (some r) = some o) :
    o = some r ∧ Linked { session := t, recording := o } r := by
  obtain ⟨es, hg, -, hps⟩ := Conn.journal_goes hj
  have hcap : s.phase.captured = true := by
    rcases hl.past with h | h
    · exact h
    · exact absurd h hg.running
  obtain ⟨hstreams, hpast, hto, hkeep⟩ := hg.teardown hcap hp
  have ho : o = some r ∧ (s.phase = .stopping → t.1.1.phase ≠ .stopping →
      r.pipe.task = .stopped) := by
    cases hs : s.phase with
    | stopping =>
      rw [hs, follow] at hf
      split at hf
      · next h =>
        cases hf
        exact ⟨rfl, fun _ hne => absurd h hne⟩
      · rw [Option.bind_some] at hf
        split at hf
        · next h =>
          cases hf
          exact ⟨rfl, fun _ _ => h⟩
        · cases hf
    | restoring | disconnecting | finishing =>
      rw [hs] at hf
      cases hf
      exact ⟨rfl, by simp⟩
    | streaming l =>
      rw [hs] at hp
      cases hp
    | _ =>
      rw [hs] at hcap
      cases hcap
  obtain ⟨rfl, hstop⟩ := ho
  refine ⟨rfl, ?_⟩
  constructor
  · rw [hps, dequeued_append, ← hl.taken, Conn.processes_of_not_streams hp]
    exact (List.append_nil _).symm
  · intro l h
    change t.1.1.phase = .streaming l at h
    rw [h] at hstreams
    cases hstreams
  · intro _
    exact hl.left hp
  · intro h
    rcases hto h with h | ⟨h, hne⟩
    · exact hl.down h
    · exact hstop h hne
  · exact hpast

theorem journal_enqueue {t : (Conn × List Effect) × List Processed}
    (hp : t.1.1.phase = .streaming l) (hroom : l.queue.length < queueCapacity) (au : NalUnit) :
    Conn.journal H S addr t (.enqueue au) =
      some (({ t.1.1 with phase := .streaming { l with queue := l.queue ++ [au] } }, t.1.2),
        t.2) := by
  have hroom : l.queue.length < 4 := hroom
  simp only [Conn.journal, Conn.trace, Conn.step, hp, hroom, ↓reduceIte, Option.map_some,
    List.append_nil, Conn.processes]

theorem offered_room {p : Pipeline} (h : p.offered e = some au) :
    p.queue.length < queueCapacity := by
  unfold Pipeline.offered at h
  split at h
  · split at h
    · exact (Option.ite_none_right_eq_some.1 h).1
    · cases h
  · cases h

theorem Linked.capture (H : HostState) (S : Serde) (addr : IpAddr) (hl : s.Linked r)
    (hst : r.step e = some r') (he : e.ofLoop = false) :
    ∃ t, s.deliver H S addr (r.pipe.offered e) = some t ∧
      Linked { session := t, recording := some r' } r' := by
  obtain ⟨d, rest, p, -, hp, rfl⟩ := Recording.step_eq_some hst
  obtain ⟨htaken, hqueue, hrecv, hleft, hdown⟩ := Pipeline.step_outside hp he
  have hkeep (ho : s.phase.streams = false ∨ r.pipe.offered e = none) :
      Linked { session := s.session, recording := some { pipe := p, demuxer := d, fifo := rest } }
        { pipe := p, demuxer := d, fifo := rest } := by
    constructor
    · exact htaken.trans hl.taken
    · intro l h
      obtain ⟨ht, hq⟩ := hl.streaming l h
      have ho : r.pipe.offered e = none := by
        rcases ho with ho | ho
        · change s.phase = _ at h
          rw [h] at ho
          cases ho
        · exact ho
      rw [ho, Option.toList_none, List.append_nil] at hqueue
      exact ⟨hrecv ht, hqueue.trans hq⟩
    · exact fun h => hleft (hl.left h)
    · exact fun h => hdown (hl.down h)
    · exact hl.past
  cases ho : r.pipe.offered e with
  | none => exact ⟨s.session, rfl, hkeep (.inr ho)⟩
  | some au =>
    by_cases hs : s.phase.streams = true
    · cases hph : s.phase with
      | streaming l =>
        obtain ⟨ht, hq⟩ := hl.streaming l hph
        have hroom := offered_room ho
        rw [hq] at hroom
        refine ⟨_, by rw [deliver, if_pos hs, journal_enqueue hph hroom], ?_⟩
        constructor
        · exact htaken.trans hl.taken
        · intro l' h
          cases h
          rw [ho, hq] at hqueue
          exact ⟨hrecv ht, hqueue⟩
        · intro h
          cases h
        · intro h
          cases h
        · exact .inl rfl
      | _ =>
        rw [hph] at hs
        cases hs
    · exact ⟨s.session, by rw [deliver, if_neg hs], hkeep (.inl (Bool.eq_false_iff.2 hs))⟩

/-- The session has begun no capture, or it agrees with the one that it began. -/
inductive Inv (es : List RelayEvent) (s : Relay) : Prop
  | before (hr : s.recording = none) (hp : s.phase.captured = false)
      (hd : dequeued s.session.2 = []) (hes : recorded es = [])
  | capture {r : Recording} (hr : s.recording = some r) (hl : s.Linked r)
      (hrun : Run (Steps Pipeline.step) {} pes r.pipe)
      (hreads : r.Reads (recorded es) (demuxed pes))

theorem step_session (he : ∀ au, e ≠ .enqueue au) :
    s.step H S addr (.session e) = (Conn.journal H S addr s.session e).bind fun t =>
      (follow s.phase t.1.1.phase e s.recording).map fun r => { session := t, recording := r } := by
  cases e with
  | enqueue au => exact absurd rfl (he au)
  | _ => rfl

theorem recorded_session (es : List RelayEvent) (e : Event) :
    recorded (es ++ [.session e]) = recorded es := by
  rw [recorded_append]
  exact List.append_nil _

theorem recorded_capture (es : List RelayEvent) (e : PipelineEvent) :
    recorded (es ++ [.capture e]) = recorded es := by
  rw [recorded_append]
  exact List.append_nil _

theorem recorded_record (es : List RelayEvent) (chunk : List UInt8) :
    recorded (es ++ [.record chunk]) = recorded es ++ chunk := by
  rw [recorded_append]
  exact congrArg (recorded es ++ ·) (List.append_nil _)

theorem Inv.session (hi : Inv es s) (hj : Conn.journal H S addr s.session e = some t)
    (he : ∀ au, e ≠ .enqueue au)
    (hf : follow s.phase t.1.1.phase e s.recording = some o) :
    Inv (es ++ [.session e]) { session := t, recording := o } := by
  have hrec := recorded_session es e
  cases hi with
  | before hr hp hd hes =>
    obtain ⟨effects, hg, -, hps⟩ := Conn.journal_goes hj
    have hs : s.phase.streams = false := by
      cases h : s.phase with
      | streaming l =>
        rw [h] at hp
        cases hp
      | _ => rfl
    have hdeq : dequeued t.2 = [] := by
      rw [hps, dequeued_append, hd, Conn.processes_of_not_streams hs]
      rfl
    by_cases hc : t.1.1.phase.captured = true
    · obtain ⟨⟨vp, enc, hconn⟩, l, hl, hq⟩ := hg.uncaptured hp hc
      change s.phase = _ at hconn
      rw [hconn, hl] at hf
      cases hf
      have hlink : Linked { session := t, recording := some {} } {} := by
        constructor
        · exact hdeq.symm
        · intro l' h
          cases hl.symm.trans h
          exact ⟨rfl, hq.symm⟩
        · intro h
          change t.1.1.phase.streams = false at h
          rw [hl] at h
          cases h
        · intro h
          change t.1.1.phase.captureDown = true at h
          rw [hl] at h
          cases h
        · exact .inl hc
      have hreads : Recording.Reads {} (recorded (es ++ [.session e])) (demuxed []) := by
        rw [hrec, hes]
        exact .start
      exact .capture rfl hlink (.nil _) hreads
    · have ho : o = none := by
        rw [hr] at hf
        cases hph : s.phase with
        | connected vp enc =>
          rw [hph, follow] at hf
          split at hf
          · next h =>
            cases htp : t.1.1.phase with
            | streaming l => exact absurd (by rw [htp]; rfl) hc
            | _ =>
              rw [htp] at h
              cases h
          · cases hf
            rfl
        | streaming l | stopping =>
          rw [hph] at hp
          cases hp
        | _ =>
          rw [hph] at hf
          cases hf
          rfl
      subst ho
      exact .before rfl (Bool.eq_false_iff.2 hc) hdeq (hrec.trans hes)
  | @capture pes r hr hl hrun hreads =>
    rw [hr] at hf
    by_cases hs : s.phase.streams = true
    · cases hph : s.phase with
      | streaming l =>
        obtain ⟨q, hq, hreader, ⟨pes', hrun', hnil⟩, hl'⟩ := hl.loop hj he hph
        cases hq.symm.trans hf
        have hreads' : Recording.Reads { r with pipe := q } (recorded (es ++ [.session e]))
            (demuxed (pes ++ pes')) := by
          rw [hrec, demuxed_append, hnil, List.append_nil]
          exact hreads.keep hreader
        exact .capture rfl hl' (hrun.append hrun') hreads'
      | _ =>
        rw [hph] at hs
        cases hs
    · obtain ⟨rfl, hl'⟩ := hl.teardown hj (Bool.eq_false_iff.2 hs) hf
      exact .capture rfl hl' hrun (hrec.symm ▸ hreads)

theorem Inv.step (hi : Inv es s) (h : s.step H S addr e = some s') : Inv (es ++ [e]) s' := by
  cases e with
  | session e =>
    by_cases he : ∀ au, e ≠ .enqueue au
    · rw [step_session he] at h
      obtain ⟨t, hj, h⟩ := Option.bind_eq_some_iff.1 h
      obtain ⟨o, hf, hs⟩ := Option.map_eq_some_iff.1 h
      cases hs
      exact hi.session hj he hf
    · obtain ⟨au, rfl⟩ := not_forall_not.1 he
      cases h
  | capture e =>
    obtain ⟨he, h⟩ := Option.ite_none_left_eq_some.1 h
    obtain ⟨r, hr, h⟩ := Option.bind_eq_some_iff.1 h
    obtain ⟨r', hst, h⟩ := Option.bind_eq_some_iff.1 h
    obtain ⟨t, ht, hs⟩ := Option.map_eq_some_iff.1 h
    cases hs
    cases hi with
    | before hr' => cases hr.symm.trans hr'
    | capture hr' hl hrun hreads =>
      cases hr.symm.trans hr'
      obtain ⟨t', ht', hl'⟩ := hl.capture H S addr hst (Bool.eq_false_iff.2 he)
      cases ht.symm.trans ht'
      have hpipe : Run (Steps Pipeline.step) r.pipe [e] r'.pipe := by
        obtain ⟨d, rest, p, -, hp, rfl⟩ := Recording.step_eq_some hst
        exact .single hp
      have hreads' := hreads.step hst
      rw [← demuxed_append, ← recorded_capture es e] at hreads'
      exact .capture rfl hl' (hrun.append hpipe) hreads'
  | record chunk =>
    obtain ⟨r, hr, h⟩ := Option.bind_eq_some_iff.1 h
    obtain ⟨r', hst, hs⟩ := Option.map_eq_some_iff.1 h
    cases hs
    cases hi with
    | before hr' => cases hr.symm.trans hr'
    | capture hr' hl hrun hreads =>
      cases hr.symm.trans hr'
      have hreads' := hreads.record hst
      rw [← recorded_record] at hreads'
      obtain ⟨-, hst⟩ := Option.ite_none_right_eq_some.1 hst
      cases hst
      exact .capture rfl ⟨hl.taken, hl.streaming, hl.left, hl.down, hl.past⟩ hrun hreads'

theorem Inv.run (h : Run (Steps (Relay.step H S addr)) {} es s) : Inv es s := by
  apply h.invariant_trace (p := []) (I := fun p s => Inv p s)
  · intro p s e t hs hst
    exact hs.step hst
  · exact .before rfl rfl rfl rfl

theorem journal_of_step (h : s.step H S addr e = some s') :
    ∃ evs, Run (Steps (Conn.journal H S addr)) s.session evs s'.session := by
  cases e with
  | session e =>
    by_cases he : ∀ au, e ≠ .enqueue au
    · rw [step_session he] at h
      obtain ⟨t, hj, h⟩ := Option.bind_eq_some_iff.1 h
      obtain ⟨o, -, hs⟩ := Option.map_eq_some_iff.1 h
      cases hs
      exact ⟨[e], .single hj⟩
    · obtain ⟨au, rfl⟩ := not_forall_not.1 he
      cases h
  | capture e =>
    obtain ⟨-, h⟩ := Option.ite_none_left_eq_some.1 h
    obtain ⟨r, -, h⟩ := Option.bind_eq_some_iff.1 h
    obtain ⟨r', -, h⟩ := Option.bind_eq_some_iff.1 h
    obtain ⟨t, ht, hs⟩ := Option.map_eq_some_iff.1 h
    cases hs
    unfold deliver at ht
    split at ht
    · next au _ =>
      split at ht
      · exact ⟨[.enqueue au], .single ht⟩
      · cases ht
        exact ⟨[], .nil _⟩
    · cases ht
      exact ⟨[], .nil _⟩
  | record chunk =>
    obtain ⟨r, -, h⟩ := Option.bind_eq_some_iff.1 h
    obtain ⟨r', -, hs⟩ := Option.map_eq_some_iff.1 h
    cases hs
    exact ⟨[], .nil _⟩

theorem journal_of_run (h : Run (Steps (step H S addr)) {} es s) :
    ∃ evs, Run (Steps (Conn.journal H S addr)) (({}, []), []) evs s.session := by
  apply h.invariant
    (I := fun s => ∃ evs, Run (Steps (Conn.journal H S addr)) (({}, []), []) evs s.session)
  · rintro s e t ⟨evs, hrun⟩ hst
    obtain ⟨evs', hrun'⟩ := journal_of_step hst
    exact ⟨evs ++ evs', hrun.append hrun'⟩
  · exact ⟨[], .nil _⟩

/-- `Capture::stop` is done, or is not what the step waits for. -/
def StopReturns (s : Relay) (p : Phase) : Prop :=
  s.phase = .stopping → p ≠ .stopping → ∃ r, s.recording = some r ∧ r.pipe.task = .stopped

/-- The capture follows each step of the session, which waits for nothing but `Capture::stop`. -/
theorem Inv.follows (hi : Inv es s) (hj : Conn.journal H S addr s.session e = some t)
    (he : ∀ au, e ≠ .enqueue au) (hstop : s.StopReturns t.1.1.phase) :
    ∃ o, s.step H S addr (.session e) = some { session := t, recording := o } := by
  suffices h : ∃ o, follow s.phase t.1.1.phase e s.recording = some o by
    obtain ⟨o, ho⟩ := h
    refine ⟨o, ?_⟩
    rw [step_session he, hj, Option.bind_some, ho]
    rfl
  cases hp : s.phase with
  | streaming l =>
    cases hi with
    | before hr hp' =>
      rw [hp] at hp'
      cases hp'
    | capture hr hl =>
      obtain ⟨q, hq, -⟩ := hl.loop hj he hp
      rw [hp] at hq
      exact ⟨_, by rw [hr, hq]⟩
  | stopping =>
    by_cases ht : t.1.1.phase = .stopping
    · exact ⟨s.recording, by rw [follow, if_pos ht]⟩
    · obtain ⟨r, hr, htask⟩ := hstop hp ht
      refine ⟨some r, ?_⟩
      rw [follow, if_neg ht, hr, Option.bind_some, if_pos htask]
  | _ => exact ⟨_, rfl⟩

end Relay

/-- A session with its capture runs as the session and the pipeline do, and they agree about the
channel. Neither keeps the other from a step, but that the session waits for `Capture::stop`; when
it goes on to restore the display, the reader has ended and no write end is left. -/
theorem relay_refines (H : HostState) (S : Serde) (addr : IpAddr) (es : List RelayEvent) (s : Relay)
    (h : Run (Steps (Relay.step H S addr)) {} es s) :
    (∃ evs, Run (Steps (Conn.journal H S addr)) (({}, []), []) evs s.session) ∧
    (∀ r, s.recording = some r →
      (∃ pes, Run (Steps Pipeline.step) {} pes r.pipe ∧
        demuxed pes <+: unitsOf (recorded es)) ∧
      r.pipe.taken = dequeued s.session.2 ∧
      (∀ l, s.phase = .streaming l → r.pipe.queue = l.queue) ∧
      (s.phase.captureDown = true → r.pipe.reader = .finished ∧ r.pipe.writers = false)) ∧
    (∀ e t, Conn.journal H S addr s.session e = some t → (∀ au, e ≠ .enqueue au) →
      s.StopReturns t.1.1.phase →
      ∃ o, s.step H S addr (.session e) = some { session := t, recording := o }) ∧
    (∀ r e r', s.recording = some r → r.step e = some r' → e.ofLoop = false →
      ∃ t, s.step H S addr (.capture e) = some { session := t, recording := some r' }) := by
  have hi := Relay.Inv.run h
  refine ⟨Relay.journal_of_run h, ?_, fun e t hj he hs => hi.follows hj he hs, ?_⟩
  · intro r hr
    cases hi with
    | before hr' => cases hr'.symm.trans hr
    | capture hr' hl hrun hreads =>
      cases hr'.symm.trans hr
      refine ⟨⟨_, hrun, hreads.readable⟩, hl.taken, fun l hp => (hl.streaming l hp).2, ?_⟩
      intro hd
      have hord := hrun.invariant (I := Ordered) (fun _ _ _ hs hst => hs.step hst) Ordered.start
      have ht := hl.down hd
      have hk : r.pipe.keeper = false := hord.keeper (by simp [ht, Task.stage])
      have hg : r.pipe.recorder = .gone := hord.recorder (by simp [ht, Task.stage])
      refine ⟨hord.reader (by simp [ht, Task.stage]), ?_⟩
      rw [Pipeline.writers, hk, hg]
      rfl
  · intro r e r' hr hst he
    cases hi with
    | before hr' => cases hr'.symm.trans hr
    | capture hr' hl =>
      cases hr'.symm.trans hr
      obtain ⟨t, ht, -⟩ := hl.capture H S addr hst he
      refine ⟨t, ?_⟩
      simp only [Relay.step, he, Bool.false_eq_true, ↓reduceIte, hr, Option.bind_some, hst, ht,
        Option.map_some]

/-- The header of a stream, and a tag with a keyframe of one NAL unit. -/
def keyframeFlv : List UInt8 :=
  [0x46, 0x4C, 0x56, 1, 1, 0, 0, 0, 9, 0, 0, 0, 0] ++
    [9, 0, 0, 11, 0, 0, 0, 0, 0, 0, 0, 0x17, 1, 0, 0, 0, 0, 0, 0, 2, 0x65, 1, 0, 0, 0, 22]

/-- A session takes its first access unit from a recorder that writes `flv`. -/
def relayed (flv : List UInt8) : List RelayEvent :=
  connected.map .session ++ [.capture .open, .capture .recorderOpen, .record flv,
    .capture .header, .capture .check, .capture (.demux ⟨true, 0, [0, 0, 0, 1, 0x65, 1]⟩),
    .capture .send, .session (.recv {})]

/-- The client says GOODBYE, and the capture is stopped. -/
def relayStopped : List RelayEvent :=
  (goodbye.take 2).map .session ++
    [.capture .setFlag, .capture .killRecorder, .capture .dropKeeper, .capture .check,
      .capture .join, .capture .unlink, .session (.next {})]

theorem relay_refines_stopped :
    ∃ s r, Run (Steps (Relay.step sampleHost sampleSerde (.v4 0))) {}
        (relayed keyframeFlv ++ relayStopped) s ∧
      s.phase = .restoring ∧ s.recording = some r ∧ r.pipe.reader = .finished ∧
      r.pipe.writers = false := by
  have hrun : ((relayed keyframeFlv ++ relayStopped).foldlM
      (Relay.step sampleHost sampleSerde (.v4 0)) {}).map
        (fun s => (s.phase, s.recording.isSome)) = some (.restoring, true) := by decide +kernel
  obtain ⟨s, hs, hp⟩ := Option.map_eq_some_iff.1 hrun
  obtain ⟨hp, hsome⟩ := Prod.mk.inj hp
  obtain ⟨r, hr⟩ := Option.isSome_iff_exists.1 hsome
  have h := run_steps_iff.2 hs
  have hdown := ((relay_refines _ _ _ _ s h).2.1 r hr).2.2.2 (by rw [hp]; rfl)
  exact ⟨s, r, h, hp, hr, hdown⟩

end DdrdeskHost
