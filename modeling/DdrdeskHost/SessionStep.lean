import DdrdeskHost.Lib.LastWrite
import DdrdeskHost.Lib.Runs
import DdrdeskHost.Session

namespace DdrdeskHost
open Bytes
set_option autoImplicit true

/-- What one step makes of the phase, and the calls in it. -/
inductive Conn.Goes (H : HostState) (S : Serde) (addr : IpAddr) (c : Conn) :
    Event → Phase → List Effect → Prop
  | arrived (chunk : List UInt8) (hne : c.phase ≠ .returned) :
    Goes H S addr c (.arrive chunk) c.phase []
  | ended (hne : c.phase ≠ .returned) : Goes H S addr c .eof c.phase []
  | pending (a : Answer) (hne : c.phase ≠ .returned) {f : ReadFut}
      (hf : c.fut.poll c.arrived = .pending f) (he : c.eof = false) :
    Goes H S addr c (.read a) c.phase []
  | queued (au : NalUnit) (hp : c.phase = .streaming l) :
    Goes H S addr c (.enqueue au) (.streaming { l with queue := l.queue ++ [au] }) []
  | hello (a : Answer) (hp : c.phase = .hello) (hf : c.fut.poll c.arrived = .ready f rest) :
    Goes H S addr c (.read a) (onHello H S f) []
  | frame (a : Answer) (hp : c.phase = .streaming l)
      (hf : c.fut.poll c.arrived = .ready f rest) :
    Goes H S addr c (.read a) (dispatch S l f a).1 (.dispatched f :: (dispatch S l f a).2)
  | gone (a : Answer) (hp : c.phase = .hello) : Goes H S addr c (.read a) .returned []
  | left (a : Answer) (hp : c.phase = .streaming l)
      (hf : (∃ e, c.fut.poll c.arrived = .failed e) ∨
        (∃ fut, c.fut.poll c.arrived = .pending fut) ∧ c.eof = true) :
    Goes H S addr c (.read a) .stopping []
  | video (a : Answer) (hp : c.phase = .streaming l) (hq : l.queue = au :: queue) :
    Goes H S addr c (.recv a) (onVideo { l with queue := queue } au a).1
      (onVideo { l with queue := queue } au a).2
  | next (a : Answer) (h : nextPhase H S addr a c.phase = some (p, es)) :
    Goes H S addr c (.next a) p es

/-- What a message does in the select loop. -/
inductive Dispatches (S : Serde) (l : Loop) (f : Frame) (a : Answer) :
    Phase → List Effect → Prop
  | ignored (hu : f.1 = Proto.uiScale → S.uiScale f.2 = none) (hv : f.1 ≠ Proto.viewport)
      (hp : f.1 = Proto.ping → ¬8 ≤ f.2.length) : Dispatches S l f a (.streaming l) []
  | uiScale (hf : f.1 = Proto.uiScale) (hs : S.uiScale f.2 = some s) :
    Dispatches S l f a
      (.streaming { l with pointerScale := pointerScaleFor l.vp l.enc.1 l.enc.2 })
      (.applyUiScale s.factor ::
        if l.injector then [.setScreen (max a.screen.1 1) (max a.screen.2 1)] else [])
  | viewport (hf : f.1 = Proto.viewport) (hs : S.viewport f.2 = some vp) :
    Dispatches S l f a
      (.streaming { l with pointerScale := pointerScaleFor vp l.enc.1 l.enc.2 }) []
  | badViewport (hf : f.1 = Proto.viewport) (hs : S.viewport f.2 = none) :
    Dispatches S l f a .returned [.captureDrop]
  | input (hf : f.1 = Proto.input) (hs : S.inputEvent f.2 = some ev) (hi : l.injector = true) :
    Dispatches S l f a (.streaming l) [.input ev l.pointerScale]
  | pong (hf : f.1 = Proto.ping) (hlen : 8 ≤ f.2.length) (hw : a.write = .done) :
    Dispatches S l f a (.streaming l) [.wrote Proto.pong (f.2.take 8 ++ toBE 8 a.now) .done]
  | pongFailed (hf : f.1 = Proto.ping) (hlen : 8 ≤ f.2.length) (hw : a.write = .failed n) :
    Dispatches S l f a .returned
      [.wrote Proto.pong (f.2.take 8 ++ toBE 8 a.now) (.failed n), .captureDrop]
  | bitrateHint (hf : f.1 = Proto.bitrateHint) (kbps : Nat) :
    Dispatches S l f a (.streaming { l with kbps := kbps }) []
  | goodbye (hf : f.1 = Proto.goodbye) : Dispatches S l f a .stopping []

theorem dispatches (S : Serde) (l : Loop) (f : Frame) (a : Answer) :
    Dispatches S l f a (dispatch S l f a).1 (dispatch S l f a).2 := by
  unfold dispatch
  split
  · next hf =>
    cases hs : S.uiScale f.2 with
    | none =>
      have hv : f.1 ≠ Proto.viewport := by simp [hf, Proto.uiScale, Proto.viewport]
      have hp : f.1 = Proto.ping → ¬8 ≤ f.2.length := by simp [hf, Proto.uiScale, Proto.ping]
      exact .ignored (fun _ => hs) hv hp
    | some s => exact .uiScale hf hs
  · next hu =>
    have hu : f.1 = Proto.uiScale → S.uiScale f.2 = none := fun h => absurd h hu
    split
    · next hf =>
      cases hs : S.viewport f.2 with
      | none => exact .badViewport hf hs
      | some vp => exact .viewport hf hs
    · next hv =>
      split
      · next hf =>
        have hp : f.1 = Proto.ping → ¬8 ≤ f.2.length := by simp [hf, Proto.input, Proto.ping]
        cases hs : S.inputEvent f.2 with
        | none => exact .ignored hu hv hp
        | some ev =>
          cases hi : l.injector with
          | false => exact .ignored hu hv hp
          | true => exact .input hf hs hi
      · split
        · next hf =>
          split
          · next hlen =>
            cases hw : a.write with
            | done => exact .pong hf hlen hw
            | failed n => exact .pongFailed hf hlen hw
          · next hlen => exact .ignored hu hv fun _ => hlen
        · next hp =>
          have hp : f.1 = Proto.ping → ¬8 ≤ f.2.length := fun h => absurd h hp
          split
          · exact .ignored hu hv hp
          · split
            · next hf =>
              cases S.bitrateHint f.2 with
              | none => exact .ignored hu hv hp
              | some h => exact .bitrateHint hf _
            · split
              · next hf => exact .goodbye hf
              · exact .ignored hu hv hp

theorem onHello_cases (H : HostState) (S : Serde) (f : Frame) :
    onHello H S f = .returned ∨ onHello H S f = .rejected ∨
      ∃ vp, onHello H S f = .authenticated vp := by
  unfold onHello
  split
  · exact .inl rfl
  · split
    · exact .inl rfl
    · split
      · exact .inr (.inr ⟨_, rfl⟩)
      · exact .inr (.inl rfl)

section
variable (H : HostState) (S : Serde)

/-- The reply to a ClientHello with the host's ID. -/
def helloReply (enc : Nat × Nat) (token : String) : List UInt8 :=
  S.serverHello
    { ok := true, name := H.hostname, fp := H.fingerprint, endpoints := H.endpoints,
      screenW := enc.1, screenH := enc.2, session := token }

def statusReply : List UInt8 :=
  S.status { state := "streaming", msg := "connected to " ++ formatId H.id }

/-- The select loop as it begins. -/
def Loop.start (vp : Viewport) (enc : Nat × Nat) (injector : Bool) : Loop :=
  { vp := vp, enc := enc, injector := injector,
    pointerScale := pointerScaleFor vp enc.1 enc.2 }

/-- What the straight-line parts do. -/
inductive Proceeds (addr : IpAddr) (a : Answer) : Phase → Phase → List Effect → Prop
  | limited (error : String) :
    Proceeds addr a .rejected (.refusing error) [.allow addr a.now a.allowed]
  | refused : Proceeds addr a (.refusing error) .returned
      [.wrote Proto.authFail (S.authFail { error := error }) a.write]
  | sized : Proceeds addr a (.authenticated vp) (.sized vp a.enc) [.applyViewport vp a.enc]
  | greeted (hw : a.write = .done) : Proceeds addr a (.sized vp enc) (.greeted vp enc)
      [.wrote Proto.serverHello (helloReply H S enc a.token) .done]
  | notGreeted (hw : a.write = .failed n) : Proceeds addr a (.sized vp enc) .returned
      [.wrote Proto.serverHello (helloReply H S enc a.token) (.failed n)]
  | announced (hw : a.write = .done) : Proceeds addr a (.greeted vp enc) (.announced vp enc)
      [.wrote Proto.status (statusReply H S) .done]
  | notAnnounced (hw : a.write = .failed n) : Proceeds addr a (.greeted vp enc) .returned
      [.wrote Proto.status (statusReply H S) (.failed n)]
  | connected : Proceeds addr a (.announced vp enc) (.connected vp enc) [.clientConnected]
  | streaming (hc : a.capture = true) :
    Proceeds addr a (.connected vp enc) (.streaming (.start vp enc a.injector))
      [.captureStart enc.1 enc.2 true]
  | notStreaming (hc : a.capture = false) : Proceeds addr a (.connected vp enc) .returned
      [.captureStart enc.1 enc.2 false]
  | stopped : Proceeds addr a .stopping .restoring [.captureStop]
  | restored : Proceeds addr a .restoring .disconnecting [.restore]
  | disconnected : Proceeds addr a .disconnecting .finishing [.clientDisconnected]
  | finished : Proceeds addr a .finishing .returned [.captureDrop]

end

section
variable {H : HostState} {S : Serde} {addr : IpAddr} {c c' : Conn}

theorem proceeds (h : nextPhase H S addr a p = some (p', es)) : Proceeds H S addr a p p' es := by
  cases p with
  | rejected =>
    cases h
    exact .limited _
  | refusing error =>
    cases h
    exact .refused
  | authenticated vp =>
    cases h
    exact .sized
  | sized vp enc =>
    cases hw : a.write with
    | done =>
      simp only [nextPhase, hw] at h
      cases h
      exact .greeted hw
    | failed n =>
      simp only [nextPhase, hw] at h
      cases h
      exact .notGreeted hw
  | greeted vp enc =>
    cases hw : a.write with
    | done =>
      simp only [nextPhase, hw] at h
      cases h
      exact .announced hw
    | failed n =>
      simp only [nextPhase, hw] at h
      cases h
      exact .notAnnounced hw
  | announced vp enc =>
    cases h
    exact .connected
  | connected vp enc =>
    cases hc : a.capture with
    | true =>
      simp only [nextPhase, hc, ↓reduceIte] at h
      cases h
      exact .streaming hc
    | false =>
      simp only [nextPhase, hc, Bool.false_eq_true, ↓reduceIte] at h
      cases h
      exact .notStreaming hc
  | stopping =>
    cases h
    exact .stopped
  | restoring =>
    cases h
    exact .restored
  | disconnecting =>
    cases h
    exact .disconnected
  | finishing =>
    cases h
    exact .finished
  | hello | streaming _ | returned => cases h

theorem Conn.goes_failed (a : Answer)
    (hf : (∃ e, c.fut.poll c.arrived = .failed e) ∨
      (∃ fut, c.fut.poll c.arrived = .pending fut) ∧ c.eof = true)
    (h : onReadFailed c.phase = some p) : c.Goes H S addr (.read a) p [] := by
  cases hp : c.phase with
  | hello =>
    rw [hp] at h
    cases h
    exact .gone a hp
  | streaming l =>
    rw [hp] at h
    cases h
    exact .left a hp hf
  | _ =>
    rw [hp] at h
    cases h

theorem Conn.goes_read (h : c.step H S addr (.read a) = some (c', es)) :
    c.Goes H S addr (.read a) c'.phase es := by
  rw [Conn.step] at h
  cases hf : c.fut.poll c.arrived with
  | ready f rest =>
    simp only [hf] at h
    obtain ⟨⟨p', es'⟩, hon, he⟩ := Option.map_eq_some_iff.1 h
    cases he
    cases hp : c.phase with
    | hello =>
      rw [hp] at hon
      cases hon
      exact .hello a hp hf
    | streaming l =>
      rw [hp] at hon
      cases hon
      exact .frame a hp hf
    | _ =>
      rw [hp] at hon
      cases hon
  | failed e =>
    simp only [hf] at h
    obtain ⟨p', hon, he⟩ := Option.map_eq_some_iff.1 h
    cases he
    exact goes_failed a (.inl ⟨e, hf⟩) hon
  | pending fut =>
    simp only [hf] at h
    cases he : c.eof with
    | true =>
      simp only [he, ↓reduceIte] at h
      obtain ⟨p', hon, hc⟩ := Option.map_eq_some_iff.1 h
      cases hc
      exact goes_failed a (.inr ⟨⟨fut, hf⟩, he⟩) hon
    | false =>
      simp only [he, Bool.false_eq_true, ↓reduceIte] at h
      cases hp : c.phase with
      | hello =>
        simp only [hp] at h
        cases h
        exact hp ▸ .pending a (by simp [hp]) hf he
      | streaming l =>
        simp only [hp] at h
        cases h
        exact hp ▸ .pending a (by simp [hp]) hf he
      | _ =>
        rw [hp] at h
        cases h

/-- All that a step can do. -/
theorem Conn.goes (h : c.step H S addr e = some (c', es)) : c.Goes H S addr e c'.phase es := by
  cases e with
  | arrive chunk =>
    rw [Conn.step] at h
    split at h
    · cases h
    · next hne =>
      cases h
      exact .arrived chunk fun h => hne (.inl h)
  | eof =>
    rw [Conn.step] at h
    split at h
    · cases h
    · next hne =>
      cases h
      exact .ended hne
  | enqueue au =>
    rw [Conn.step] at h
    cases hp : c.phase with
    | streaming l =>
      simp only [hp] at h
      split at h
      · cases h
        exact .queued au hp
      · cases h
    | _ =>
      rw [hp] at h
      cases h
  | read a => exact goes_read h
  | recv a =>
    rw [Conn.step] at h
    cases hp : c.phase with
    | streaming l =>
      rw [hp] at h
      cases hq : l.queue with
      | nil =>
        simp only [hq] at h
        cases h
      | cons au queue =>
        simp only [hq] at h
        cases h
        exact .video a hp hq
    | _ =>
      rw [hp] at h
      cases h
  | next a =>
    obtain ⟨⟨p', es'⟩, hn, he⟩ := Option.map_eq_some_iff.1 h
    cases he
    exact .next a hn

theorem Conn.Goes.running (h : c.Goes H S addr e p es) : c.phase ≠ .returned := by
  intro hp
  cases h with
  | arrived _ hne | ended hne | pending _ hne => exact hne hp
  | next a h =>
    rw [hp] at h
    cases h
  | queued _ h | hello _ h | frame _ h | gone _ h | left _ h | video _ h => cases hp.symm.trans h

theorem Conn.trace_prefix (h : Conn.trace H S addr s e = some t) : s.2 <+: t.2 := by
  obtain ⟨r, -, rfl⟩ := Option.map_eq_some_iff.1 h
  exact List.prefix_append s.2 r.2

theorem Conn.exists_made (h : Run (Steps (Conn.trace H S addr)) (c, []) evs t)
    (ht : t.2 = p ++ x :: q) :
    ∃ evs₁ e evs₂ r es₁ c' es₂, evs = evs₁ ++ e :: evs₂ ∧
      Run (Steps (Conn.trace H S addr)) (c, []) evs₁ r ∧ p = r.2 ++ es₁ ∧
      r.1.step H S addr e = some (c', es₁ ++ x :: es₂) := by
  obtain ⟨evs₁, e, evs₂, r, u, rfl, hr, hst, -, ⟨es₁, hp⟩, hu⟩ :=
    h.exists_logged (fun _ _ _ hst => Conn.trace_prefix hst) (Nat.zero_le _) ht
  obtain ⟨⟨c', es⟩, hstep, rfl⟩ := Option.map_eq_some_iff.1 hst
  rw [← hp, List.append_assoc, List.prefix_append_right_inj] at hu
  obtain ⟨es₂, rfl⟩ := hu
  rw [List.append_assoc, List.singleton_append] at hstep
  exact ⟨evs₁, e, evs₂, r, es₁, c', es₂, rfl, hr, hp.symm, hstep⟩

end

/-- The viewport and the encoder size that a session starts with. -/
def Effect.session : Effect → Option (Viewport × (Nat × Nat))
  | .applyViewport vp enc => some (vp, enc)
  | _ => none

def sessionOf (es : List Effect) : Option (Viewport × (Nat × Nat)) := lastWrite Effect.session es

theorem sessionOf_append (h : ∀ e ∈ es', Effect.session e = none) (es : List Effect) :
    sessionOf (es ++ es') = sessionOf es := by
  rw [sessionOf, lastWrite_append, lastWrite_eq_none h, Option.none_or]
  rfl

end DdrdeskHost
