import DdrdeskHost.Flv
import DdrdeskHost.Framing
import DdrdeskHost.RateLimit
import Mathlib.Algebra.Field.Rat

namespace DdrdeskHost
open Bytes
set_option autoImplicit true

structure HostState where
  id : String
  hostname : String
  endpoints : List String
  fingerprint : String

/-- The JSON library, as the session uses it. -/
structure Serde where
  clientHello : List UInt8 → Option ClientHello
  viewport : List UInt8 → Option Viewport
  uiScale : List UInt8 → Option UiScale
  inputEvent : List UInt8 → Option InputEvent
  bitrateHint : List UInt8 → Option BitrateHint
  authFail : AuthFail → List UInt8
  serverHello : ServerHello → List UInt8
  status : Status → List UInt8

/-- An ID in groups of three. The source counts bytes, of which a digit has one. -/
def formatId (id : String) : String :=
  let cs := id.toList
  if cs.length = 9 then
    String.ofList (cs.take 3 ++ ' ' :: (cs.drop 3).take 3 ++ ' ' :: cs.drop 6)
  else id

def ClientHello.viewport (h : ClientHello) : Viewport :=
  { w := h.w, h := h.h, pointsW := h.pointsW, pointsH := h.pointsH, scale := h.scale,
    orientation := h.orientation }

def pointerScaleFor (vp : Viewport) (encW _encH : Nat) : ℚ :=
  let ptsW := if vp.pointsW > 1 then vp.pointsW else vp.w.toNat / max vp.scale 1
  let s := if ptsW > 1 then encW / ptsW else 3 / 2
  min (max s (2 / 5)) 6

/-- A `read_frame` future between two polls: which read it awaits, and what that read has taken. -/
inductive ReadFut
  | lenb (got : List UInt8)
  | body (len got : List UInt8)
  deriving DecidableEq

inductive Poll
  | pending (fut : ReadFut)
  | ready (f : Frame) (rest : List UInt8)
  | failed (e : ReadError)
  deriving DecidableEq

namespace ReadFut

/-- The bytes that the future has taken from the connection. -/
def bytes : ReadFut → List UInt8
  | lenb got => got
  | body len got => len ++ got

def pollBody (lenb got avail : List UInt8) : Poll :=
  let len := ofBE lenb
  if len = 0 ∨ maxFrame < len then .failed (.invalidLength len)
  else
    match readExact (len - got.length) avail with
    | none => .pending (.body lenb (got ++ avail))
    | some (b, rest) => .ready ((got ++ b).headD 0, (got ++ b).tail) rest

/-- Poll the future on the bytes at hand; a read that stays pending has taken them all. -/
def poll : ReadFut → List UInt8 → Poll
  | lenb got, avail =>
    match readExact (4 - got.length) avail with
    | none => .pending (.lenb (got ++ avail))
    | some (b, rest) => pollBody (got ++ b) [] rest
  | body len got, avail => pollBody len got avail

end ReadFut

/-- How an awaited `write_frame` ends; a failed one may have sent part of its bytes. -/
inductive Write
  | done
  | failed (sent : Nat)
  deriving DecidableEq

/-- What the world answers to the calls of one step; a step looks at the answers it needs. -/
structure Answer where
  write : Write := .done
  allowed : Bool := true
  enc : Nat × Nat := (1280, 800)
  token : String := ""
  injector : Bool := true
  capture : Bool := true
  screen : Nat × Nat := (1920, 1200)
  now : Nat := 0
  deriving DecidableEq

/-- The calls a session makes, in order, with the answers it got. -/
inductive Effect
  | allow (addr : IpAddr) (now : Nat) (allowed : Bool)
  | applyViewport (vp : Viewport) (enc : Nat × Nat)
  | wrote (typ : UInt8) (payload : List UInt8) (w : Write)
  | clientConnected
  | captureStart (width height : Nat) (ok : Bool)
  | dispatched (f : Frame)
  | applyUiScale (factor : ℚ)
  | setScreen (w h : Nat)
  | input (ev : InputEvent) (pointerScale : ℚ)
  | captureStop
  | restore
  | clientDisconnected
  | captureDrop
  deriving DecidableEq

/-- The locals of the select loop; `queue` is the channel of capacity 4 behind `vrx`. -/
structure Loop where
  vp : Viewport
  enc : Nat × Nat
  injector : Bool
  pointerScale : ℚ
  kbps : Nat := 0
  framesSent : Nat := 0
  queue : List NalUnit := []
  deriving DecidableEq

/-- Where `run_session` stands: the call it makes next, with the values still needed. -/
inductive Phase
  | hello
  | rejected
  | refusing (error : String)
  | authenticated (vp : Viewport)
  | sized (vp : Viewport) (enc : Nat × Nat)
  | greeted (vp : Viewport) (enc : Nat × Nat)
  | announced (vp : Viewport) (enc : Nat × Nat)
  | connected (vp : Viewport) (enc : Nat × Nat)
  | streaming (l : Loop)
  | stopping
  | restoring
  | disconnecting
  | finishing
  | returned
  deriving DecidableEq

/-- One connection: the bytes that arrived and are not yet read, the current read, the task. -/
structure Conn where
  arrived : List UInt8 := []
  eof : Bool := false
  fut : ReadFut := .lenb []
  phase : Phase := .hello
  deriving DecidableEq

inductive Event
  | arrive (chunk : List UInt8)
  | eof
  | enqueue (au : NalUnit)
  | read (a : Answer)
  | recv (a : Answer)
  | next (a : Answer)
  deriving DecidableEq

section
variable (H : HostState) (S : Serde) (addr : IpAddr)

/-- The first frame: anything but a ClientHello ends the session, the ID is compared at once. -/
def onHello (f : Frame) : Phase :=
  if f.1 ≠ Proto.clientHello then .returned
  else
    match S.clientHello f.2 with
    | none => .returned
    | some hello => if hello.id = H.id then .authenticated hello.viewport else .rejected

/-- The `match typ` of the select loop. -/
def dispatch (l : Loop) (f : Frame) (a : Answer) : Phase × List Effect :=
  if f.1 = Proto.uiScale then
    match S.uiScale f.2 with
    | none => (.streaming l, [])
    | some s =>
      (.streaming { l with pointerScale := pointerScaleFor l.vp l.enc.1 l.enc.2 },
        .applyUiScale s.factor ::
          if l.injector then [.setScreen (max a.screen.1 1) (max a.screen.2 1)] else [])
  else if f.1 = Proto.viewport then
    match S.viewport f.2 with
    | none => (.returned, [.captureDrop])
    | some vp => (.streaming { l with pointerScale := pointerScaleFor vp l.enc.1 l.enc.2 }, [])
  else if f.1 = Proto.input then
    match S.inputEvent f.2 with
    | none => (.streaming l, [])
    | some ev => (.streaming l, if l.injector then [.input ev l.pointerScale] else [])
  else if f.1 = Proto.ping then
    if 8 ≤ f.2.length then
      let pong := f.2.take 8 ++ toBE 8 a.now
      match a.write with
      | .done => (.streaming l, [.wrote Proto.pong pong a.write])
      | .failed _ => (.returned, [.wrote Proto.pong pong a.write, .captureDrop])
    else (.streaming l, [])
  else if f.1 = Proto.requestKeyframe then (.streaming l, [])
  else if f.1 = Proto.bitrateHint then
    match S.bitrateHint f.2 with
    | none => (.streaming l, [])
    | some h => (.streaming { l with kbps := min (max h.kbps.toNat 800) 25000 }, [])
  else if f.1 = Proto.goodbye then (.stopping, [])
  else (.streaming l, [])

/-- The video branch of the select loop. -/
def onVideo (l : Loop) (au : NalUnit) (a : Answer) : Phase × List Effect :=
  let flags := if au.keyframe then Proto.videoFlagKey else 0
  let payload := videoPayload flags au.ptsUs au.data
  match a.write with
  | .done => (.streaming { l with framesSent := l.framesSent + 1 },
      [.wrote Proto.video payload a.write])
  | .failed _ => (.stopping, [.wrote Proto.video payload a.write])

/-- The straight-line parts of `run_session`, before and after the loop. `Capture::stop` is a step
that is taken when it returns. -/
def nextPhase (a : Answer) : Phase → Option (Phase × List Effect)
  | .rejected =>
    some (.refusing (if a.allowed then "bad_id" else "rate_limited"),
      [.allow addr a.now a.allowed])
  | .refusing error =>
    some (.returned, [.wrote Proto.authFail (S.authFail { error := error }) a.write])
  | .authenticated vp => some (.sized vp a.enc, [.applyViewport vp a.enc])
  | .sized vp enc =>
    let sh : ServerHello :=
      { ok := true, name := H.hostname, fp := H.fingerprint, endpoints := H.endpoints,
        screenW := enc.1, screenH := enc.2, session := a.token }
    let out := .wrote Proto.serverHello (S.serverHello sh) a.write
    match a.write with
    | .done => some (.greeted vp enc, [out])
    | .failed _ => some (.returned, [out])
  | .greeted vp enc =>
    let st : Status := { state := "streaming", msg := "connected to " ++ formatId H.id }
    let out := .wrote Proto.status (S.status st) a.write
    match a.write with
    | .done => some (.announced vp enc, [out])
    | .failed _ => some (.returned, [out])
  | .announced vp enc => some (.connected vp enc, [.clientConnected])
  | .connected vp enc =>
    if a.capture then
      some (.streaming { vp := vp, enc := enc, injector := a.injector,
                         pointerScale := pointerScaleFor vp enc.1 enc.2 },
        [.captureStart enc.1 enc.2 true])
    else some (.returned, [.captureStart enc.1 enc.2 false])
  | .stopping => some (.restoring, [.captureStop])
  | .restoring => some (.disconnecting, [.restore])
  | .disconnecting => some (.finishing, [.clientDisconnected])
  | .finishing => some (.returned, [.captureDrop])
  | _ => none

/-- A failed read ends the handshake, and breaks the select loop. -/
def onReadFailed : Phase → Option Phase
  | .hello => some .returned
  | .streaming _ => some .stopping
  | _ => none

/-- A frame is handled where the task awaits one. -/
def onFrame (f : Frame) (a : Answer) : Phase → Option (Phase × List Effect)
  | .hello => some (onHello H S f, [])
  | .streaming l =>
    let (p, es) := dispatch S l f a
    some (p, .dispatched f :: es)
  | _ => none

/-- One step of a connection. In the loop, `read` polls the `read_frame` branch of `select!`, and
`recv` completes the other branch: the read future is dropped with the bytes it has taken. -/
def Conn.step (c : Conn) : Event → Option (Conn × List Effect)
  | .arrive chunk =>
    if c.phase = .returned ∨ c.eof then none
    else some ({ c with arrived := c.arrived ++ chunk }, [])
  | .eof => if c.phase = .returned then none else some ({ c with eof := true }, [])
  | .enqueue au =>
    match c.phase with
    | .streaming l =>
      if l.queue.length < 4 then
        some ({ c with phase := .streaming { l with queue := l.queue ++ [au] } }, [])
      else none
    | _ => none
  | .read a =>
    match c.fut.poll c.arrived with
    | .ready f rest =>
      (onFrame H S f a c.phase).map fun r =>
        ({ c with arrived := rest, fut := .lenb [], phase := r.1 }, r.2)
    | .failed _ => (onReadFailed c.phase).map fun p => ({ c with phase := p }, [])
    | .pending fut =>
      if c.eof then (onReadFailed c.phase).map fun p => ({ c with phase := p }, [])
      else
        match c.phase with
        | .hello | .streaming _ => some ({ c with arrived := [], fut := fut }, [])
        | _ => none
  | .recv a =>
    match c.phase with
    | .streaming l =>
      match l.queue with
      | [] => none
      | au :: queue =>
        let (p, es) := onVideo { l with queue := queue } au a
        some ({ c with fut := .lenb [], phase := p }, es)
    | _ => none
  | .next a => (nextPhase H S addr a c.phase).map fun r => ({ c with phase := r.1 }, r.2)

/-- A step together with the record of all calls made so far. -/
def Conn.trace (t : Conn × List Effect) (e : Event) : Option (Conn × List Effect) :=
  (t.1.step H S addr e).map fun r => (r.1, t.2 ++ r.2)

end

section
variable {H : HostState} {S : Serde} {addr : IpAddr} {c c' : Conn}

theorem Conn.trace_eq (h : Conn.step H S addr c e = some (c', es')) (es : List Effect) :
    Conn.trace H S addr (c, es) e = some (c', es ++ es') := by
  rw [Conn.trace, h]
  rfl

theorem Conn.step_arrive (hp : c.phase ≠ .returned) (he : c.eof = false) (chunk : List UInt8) :
    Conn.step H S addr c (.arrive chunk) =
      some ({ c with arrived := c.arrived ++ chunk }, []) := by
  simp only [Conn.step, hp, he, Bool.false_eq_true, or_self, ↓reduceIte]

theorem Conn.step_ready (h : c.fut.poll c.arrived = .ready f rest)
    (hon : onFrame H S f a c.phase = some (p, es)) :
    Conn.step H S addr c (.read a) =
      some ({ c with arrived := rest, fut := .lenb [], phase := p }, es) := by
  rw [Conn.step, h]
  simp only [hon, Option.map_some]

theorem Conn.step_next (h : nextPhase H S addr a c.phase = some (p, es)) :
    Conn.step H S addr c (.next a) = some ({ c with phase := p }, es) := by
  rw [Conn.step, h]
  rfl

theorem onHello_eq (hs : S.clientHello payload = some hello) :
    onHello H S (Proto.clientHello, payload) =
      if hello.id = H.id then .authenticated hello.viewport else .rejected := by
  simp only [onHello, ne_eq, not_true_eq_false, ↓reduceIte, hs]

end

end DdrdeskHost
