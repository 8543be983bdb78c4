import DdrdeskHost.SessionStep

namespace DdrdeskHost
open Bytes
set_option autoImplicit true

/-- A read that has not ended lacks bytes, and its length prefix is acceptable. -/
def ReadFut.InFlight : ReadFut → Prop
  | lenb got => got.length < 4
  | body len got => len.length = 4 ∧ ¬(ofBE len = 0 ∨ maxFrame < ofBE len) ∧
      got.length < ofBE len

theorem readFrame_append_body (h4 : len.length = 4) (hb : ¬(ofBE len = 0 ∨ maxFrame < ofBE len))
    (s : List UInt8) : readFrame (len ++ s) =
      match readExact (ofBE len) s with
      | none => .error .readBody
      | some (buf, r) => .ok ((buf.headD 0, buf.tail), r) := by
  cases h : readExact (ofBE len) s with
  | none => simp only [readFrame, readExact_append h4, hb, ↓reduceIte, h]
  | some r => simp only [readFrame, readExact_append h4, hb, ↓reduceIte, h]

/-- Polling computes `read_frame` of the bytes taken so far and those at hand. -/
def PollSpec (taken avail : List UInt8) : Poll → Prop
  | .ready f rest => readFrame (taken ++ avail) = .ok (f, rest)
  | .pending fut => fut.InFlight ∧ fut.bytes = taken ++ avail
  | .failed e => readFrame (taken ++ avail) = .error e

theorem PollSpec.assoc (h : PollSpec (x ++ y) z p) : PollSpec x (y ++ z) p := by
  cases p <;> simpa only [PollSpec, List.append_assoc] using h

theorem pollBody_spec (h4 : len.length = 4)
    (hgot : ¬(ofBE len = 0 ∨ maxFrame < ofBE len) → got.length < ofBE len) (avail : List UInt8) :
    PollSpec (len ++ got) avail (ReadFut.pollBody len got avail) := by
  unfold ReadFut.pollBody
  by_cases hb : ofBE len = 0 ∨ maxFrame < ofBE len
  · simp only [hb, ↓reduceIte, PollSpec, List.append_assoc, readFrame, readExact_append h4]
  · have hlt := hgot hb
    simp only [hb, ↓reduceIte]
    split
    · next hr =>
      have hshort := readExact_eq_none.1 hr
      have hlt' : (got ++ avail).length < ofBE len := by
        rw [List.length_append]
        omega
      constructor
      · exact ⟨h4, hb, hlt'⟩
      · simp only [ReadFut.bytes, List.append_assoc]
    · next b rest hr =>
      obtain ⟨rfl, hlen⟩ := readExact_eq_some hr
      have hbuf : readExact (ofBE len) (got ++ (b ++ rest)) = some (got ++ b, rest) := by
        rw [← List.append_assoc]
        apply readExact_append
        rw [List.length_append]
        omega
      simp only [PollSpec, List.append_assoc, readFrame_append_body h4 hb, hbuf]

theorem poll_spec {fut : ReadFut} (h : fut.InFlight) (avail : List UInt8) :
    PollSpec fut.bytes avail (fut.poll avail) := by
  cases fut with
  | body len got =>
    obtain ⟨h4, _, hlt⟩ := h
    exact pollBody_spec h4 (fun _ => hlt) avail
  | lenb got =>
    have h4 : got.length < 4 := h
    simp only [ReadFut.poll, ReadFut.bytes]
    split
    · next hr =>
      have hshort := readExact_eq_none.1 hr
      constructor
      · simp only [ReadFut.InFlight, List.length_append]
        omega
      · rfl
    · next b rest hr =>
      obtain ⟨rfl, hlen⟩ := readExact_eq_some hr
      have h4 : (got ++ b).length = 4 := by
        rw [List.length_append]
        omega
      have hspec : PollSpec (got ++ b ++ []) rest (ReadFut.pollBody (got ++ b) [] rest) :=
        pollBody_spec h4 (fun hb => by rw [List.length_nil]; omega) rest
      rw [List.append_nil] at hspec
      exact hspec.assoc

theorem ReadFut.InFlight.readFrame {fut : ReadFut} (h : fut.InFlight) :
    readFrame fut.bytes = .error .readLength ∨ readFrame fut.bytes = .error .readBody := by
  cases fut with
  | lenb got =>
    have hr : readExact 4 got = none := readExact_eq_none.2 h
    exact .inl (by simp only [DdrdeskHost.readFrame, ReadFut.bytes, hr])
  | body len got =>
    obtain ⟨h4, hb, hlt⟩ := h
    have hr : readExact (ofBE len) got = none := readExact_eq_none.2 hlt
    exact .inr (by simp only [ReadFut.bytes, readFrame_append_body h4 hb, hr])

theorem ReadFut.InFlight.decode {fut : ReadFut} (h : fut.InFlight) :
    frameCode.decode fut.bytes = none := by
  rw [frameCode_decode_none]
  rcases h.readFrame with h | h
  · exact ⟨_, h⟩
  · exact ⟨_, h⟩

theorem poll_writeFrame {payload : List UInt8} (h : 1 + payload.length ≤ maxFrame)
    (s : List UInt8) : (ReadFut.lenb []).poll (writeFrame typ payload ++ s) =
      .ready (typ, payload) s := by
  have hfl : (ReadFut.lenb []).InFlight := Nat.succ_pos _
  have hspec := poll_spec hfl (writeFrame typ payload ++ s)
  have hread : readFrame (writeFrame typ payload ++ s) = .ok ((typ, payload), s) :=
    readFrame_writeFrame h s
  cases hp : (ReadFut.lenb []).poll (writeFrame typ payload ++ s) with
  | ready f rest =>
    rw [hp] at hspec
    have he := hspec.symm.trans hread
    cases he
    rfl
  | pending fut =>
    rw [hp] at hspec
    have hnone := hspec.1.decode
    rw [hspec.2, frameCode_decode_none] at hnone
    obtain ⟨e, he⟩ := hnone
    cases he.symm.trans hread
  | failed e =>
    rw [hp] at hspec
    cases hspec.symm.trans hread

/-- The bytes that reached the session and belong to no dispatched frame yet. -/
def Conn.unread (c : Conn) : List UInt8 := c.fut.bytes ++ c.arrived

def Event.bytes : Event → List UInt8
  | .arrive chunk => chunk
  | _ => []

/-- What the transport has delivered in a run. -/
def delivered (evs : List Event) : List UInt8 := evs.flatMap Event.bytes

def dispatchedFrames (es : List Effect) : List Frame :=
  es.filterMap fun
    | .dispatched f => some f
    | _ => none

@[simp] theorem dispatchedFrames_append (es es' : List Effect) :
    dispatchedFrames (es ++ es') = dispatchedFrames es ++ dispatchedFrames es' :=
  List.filterMap_append

@[simp] theorem delivered_append (evs evs' : List Event) :
    delivered (evs ++ evs') = delivered evs ++ delivered evs' := List.flatMap_append

@[simp] theorem delivered_singleton (e : Event) : delivered [e] = e.bytes :=
  List.append_nil _

theorem Dispatches.dispatchedFrames (h : Dispatches S l f a p es) :
    DdrdeskHost.dispatchedFrames es = [] := by
  cases h with
  | uiScale => cases l.injector <;> rfl
  | _ => rfl

theorem Dispatches.ne_hello (h : Dispatches S l f a p es) : p ≠ .hello := by
  cases h <;> simp

theorem dispatchedFrames_onVideo (l : Loop) (au : NalUnit) (a : Answer) :
    dispatchedFrames (onVideo l au a).2 = [] := by
  simp only [onVideo]
  split <;> rfl

theorem Proceeds.dispatchedFrames (h : Proceeds H S addr a p p' es) :
    DdrdeskHost.dispatchedFrames es = [] := by
  cases h <;> rfl

theorem Proceeds.ne_hello (h : Proceeds H S addr a p p' es) : p' ≠ .hello := by
  cases h <;> simp

/-- What a step after the handshake does to the byte stream: it keeps it, takes one whole frame off
it, or drops what the current read has taken. -/
inductive ReadStep (c : Conn) (e : Event) (c' : Conn) : List Frame → Prop
  | keep : (∀ a, e ≠ .recv a) → c'.unread = c.unread ++ e.bytes → ReadStep c e c' []
  | frame : (∀ a, e ≠ .recv a) → e.bytes = [] → f.Fits →
      c.unread = writeFrame f.1 f.2 ++ c'.unread → ReadStep c e c' [f]
  | drop : e = .recv a → c'.unread = c.arrived → ReadStep c e c' []

theorem Conn.step_read (h : Conn.step H S addr c e = some (c', es)) (hfl : c.fut.InFlight)
    (hp : c.phase ≠ .hello) :
    c'.fut.InFlight ∧ c'.phase ≠ .hello ∧ ReadStep c e c' (dispatchedFrames es) := by
  cases e with
  | arrive chunk =>
    simp only [Conn.step] at h
    split at h
    · cases h
    · cases h
      exact ⟨hfl, hp, .keep (by simp) (List.append_assoc _ _ _).symm⟩
  | eof =>
    simp only [Conn.step] at h
    split at h
    · cases h
    · cases h
      exact ⟨hfl, hp, .keep (by simp) (List.append_nil _).symm⟩
  | enqueue au =>
    simp only [Conn.step] at h
    split at h
    · split at h
      · cases h
        exact ⟨hfl, by simp, .keep (by simp) (List.append_nil _).symm⟩
      · cases h
    · cases h
  | recv a =>
    simp only [Conn.step] at h
    split at h
    · next l hl =>
      split at h
      · cases h
      · next au queue hq =>
        cases h
        have hne : (onVideo { l with queue := queue } au a).1 ≠ .hello := by
          simp only [onVideo]
          split <;> simp
        rw [dispatchedFrames_onVideo]
        exact ⟨Nat.succ_pos _, hne, .drop rfl rfl⟩
    · cases h
  | next a =>
    simp only [Conn.step] at h
    obtain ⟨⟨p, es'⟩, hn, he⟩ := Option.map_eq_some_iff.1 h
    cases he
    rw [(proceeds hn).dispatchedFrames]
    exact ⟨hfl, (proceeds hn).ne_hello, .keep (by simp) (List.append_nil _).symm⟩
  | read a =>
    have hspec := poll_spec hfl c.arrived
    have hfail : ∀ p, onReadFailed c.phase = some p → p ≠ .hello := by
      intro p
      cases c.phase <;> simp only [onReadFailed] <;> intro h <;> cases h <;> simp
    simp only [Conn.step] at h
    split at h
    · next f rest hpoll =>
      rw [hpoll] at hspec
      obtain ⟨hf, hbytes⟩ := readFrame_eq_ok hspec
      obtain ⟨⟨p, es'⟩, hon, he⟩ := Option.map_eq_some_iff.1 h
      cases he
      cases hph : c.phase with
      | hello => exact absurd hph hp
      | streaming l =>
        rw [hph] at hon
        simp only [onFrame, Option.some.injEq, Prod.mk.injEq] at hon
        obtain ⟨rfl, rfl⟩ := hon
        have hd : dispatchedFrames (.dispatched f :: (dispatch S l f a).2) = [f] :=
          congrArg (f :: ·) (dispatches S l f a).dispatchedFrames
        rw [hd]
        exact ⟨Nat.succ_pos _, (dispatches S l f a).ne_hello, .frame (by simp) rfl hf hbytes⟩
      | _ => rw [hph] at hon; cases hon
    · obtain ⟨p, hon, he⟩ := Option.map_eq_some_iff.1 h
      cases he
      exact ⟨hfl, hfail p hon, .keep (by simp) (List.append_nil _).symm⟩
    · next fut hpoll =>
      rw [hpoll] at hspec
      split at h
      · obtain ⟨p, hon, he⟩ := Option.map_eq_some_iff.1 h
        cases he
        exact ⟨hfl, hfail p hon, .keep (by simp) (List.append_nil _).symm⟩
      · have hkeep : ReadStep c (.read a) { c with arrived := [], fut := fut } [] := by
          apply ReadStep.keep (by simp)
          simp only [Conn.unread, Event.bytes, hspec.2, List.append_nil]
        split at h
        · cases h
          exact ⟨hspec.1, hp, hkeep⟩
        · cases h
          exact ⟨hspec.1, hp, hkeep⟩
        · cases h

/-- What a step does while the first frame is awaited. -/
inductive HelloStep (H : HostState) (S : Serde) (c : Conn) (e : Event) (c' : Conn) : Prop
  | waits (hp : c'.phase = .hello) (hfl : c'.fut.InFlight) (hu : c'.unread = c.unread ++ e.bytes)
      (hw : ∀ a, e = .read a → c.eof = false ∧ c'.fut.bytes = c.unread)
  | frame (hb : e.bytes = []) (hf : readFrame c.unread = .ok (f, rest))
      (hp : c'.phase = onHello H S f)
  | gone (hb : e.bytes = []) (hp : c'.phase = .returned)

theorem Conn.step_hello (h : Conn.step H S addr c e = some (c', es)) (hfl : c.fut.InFlight)
    (hp : c.phase = .hello) : es = [] ∧ HelloStep H S c e c' := by
  cases e with
  | arrive chunk =>
    simp only [Conn.step] at h
    split at h
    · cases h
    · cases h
      exact ⟨rfl, .waits hp hfl (List.append_assoc _ _ _).symm (by simp)⟩
  | eof =>
    simp only [Conn.step] at h
    split at h
    · cases h
    · cases h
      exact ⟨rfl, .waits hp hfl (List.append_nil _).symm (by simp)⟩
  | enqueue au =>
    simp only [Conn.step, hp] at h
    cases h
  | recv a =>
    simp only [Conn.step, hp] at h
    cases h
  | next a =>
    simp only [Conn.step, hp] at h
    cases h
  | read a =>
    have hspec := poll_spec hfl c.arrived
    simp only [Conn.step, hp] at h
    split at h
    · next f rest hpoll =>
      rw [hpoll] at hspec
      cases h
      exact ⟨rfl, .frame rfl hspec rfl⟩
    · cases h
      exact ⟨rfl, .gone rfl rfl⟩
    · next fut hpoll =>
      rw [hpoll] at hspec
      split at h
      · cases h
        exact ⟨rfl, .gone rfl rfl⟩
      · next he =>
        cases h
        have hbytes : fut.bytes = c.unread := hspec.2
        have hunread : fut.bytes ++ [] = c.unread ++ [] := congrArg (· ++ []) hbytes
        exact ⟨rfl, .waits rfl hspec.1 hunread
          fun _ _ => ⟨Bool.eq_false_of_not_eq_true he, hbytes⟩⟩

end DdrdeskHost
