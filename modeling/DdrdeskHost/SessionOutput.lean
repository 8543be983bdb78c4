import DdrdeskHost.FirstFrame

namespace DdrdeskHost
open Bytes
set_option autoImplicit true

/-- What the select loop processes: an access unit that it dequeued, a frame that it dispatched. -/
inductive Processed
  | unit (au : NalUnit)
  | frame (f : Frame)
  deriving DecidableEq

def Conn.processes (c : Conn) : Event → List Processed
  | .recv _ =>
    match c.phase with
    | .streaming l => (l.queue.take 1).map .unit
    | _ => []
  | .read _ =>
    match c.phase, c.fut.poll c.arrived with
    | .streaming _, .ready f _ => [.frame f]
    | _, _ => []
  | _ => []

/-- A step together with the calls made and the items processed so far, in order. -/
def Conn.journal (H : HostState) (S : Serde) (addr : IpAddr)
    (t : (Conn × List Effect) × List Processed) (e : Event) :
    Option ((Conn × List Effect) × List Processed) :=
  (Conn.trace H S addr t.1 e).map fun t' => (t', t.2 ++ t.1.1.processes e)

/-- The frames that a session writes, whether or not the last write succeeds. -/
def wrote (es : List Effect) : List Frame :=
  es.filterMap fun
    | .wrote typ payload _ => some (typ, payload)
    | _ => none

/-- The bytes that reach the client. -/
def sentBytes (es : List Effect) : List UInt8 :=
  es.flatMap fun
    | .wrote typ payload .done => writeFrame typ payload
    | .wrote typ payload (.failed n) => (writeFrame typ payload).take n
    | _ => []

/-- Writing this frame failed. -/
def CutOff (es : List Effect) (f : Frame) : Prop := ∃ n, .wrote f.1 f.2 (.failed n) ∈ es

/-- The client decodes these frames; the last one may be cut if writing it failed. -/
def Decodes (es : List Effect) (fs : List Frame) : Prop :=
  readFrames (sentBytes es) = (fs, [], .readLength) ∨
    ∃ gs last, fs = gs ++ [last] ∧ CutOff es last ∧ (readFrames (sentBytes es)).1 = gs ∧
      (readFrames (sentBytes es)).2.1 <+: writeFrame last.1 last.2

/-- The processed item has an answer: each access unit, and a PING with a time in it. -/
def Processed.answered : Processed → Bool
  | .unit _ => true
  | .frame f => f.1 = Proto.ping && 8 ≤ f.2.length

/-- The frame answers the item. -/
def Reply : Processed → Frame → Prop
  | .unit au, f => f.1 = Proto.video ∧
      parseVideo f.2 = some (if au.keyframe then Proto.videoFlagKey else 0, au.ptsUs, au.data)
  | .frame g, f => f.1 = Proto.pong ∧ f.2.length = 16 ∧ f.2.take 8 = g.2.take 8

section
variable (H : HostState) (S : Serde)

/-- The frames that greet a client. -/
def greeting (enc : Nat × Nat) (token : String) : List Frame :=
  [(Proto.serverHello, helloReply H S enc token), (Proto.status, statusReply H S)]

/-- The replies that the JSON library made of the greeting fit in frames. -/
def GreetingFits (es : List Effect) : Prop :=
  ∀ enc token, ∀ f ∈ greeting H S enc token, f ∈ wrote es → f.Fits

/-- After the greeting, each item that has an answer got it, in order. -/
def Answered (es : List Effect) (ps : List Processed) : Prop :=
  ∃ enc token outs, wrote es = greeting H S enc token ++ outs ∧
    List.Forall₂ Reply (ps.filter Processed.answered) outs

/-- The session is in its loop or past it. -/
def Phase.looped : Phase → Bool
  | .streaming _ | .stopping | .restoring | .disconnecting | .finishing | .returned => true
  | _ => false

/-- Nothing is written from here on. -/
def Phase.closing : Phase → Bool
  | .stopping | .restoring | .disconnecting | .finishing | .returned => true
  | _ => false

/-- The calls of a step write at most one frame; after one that is cut, nothing is written. -/
inductive Writes (es : List Effect) (p : Phase) : Prop
  | silent (hw : wrote es = [])
  | whole (f : Frame) (hw : wrote es = [f]) (hb : sentBytes es = writeFrame f.1 f.2)
  | cut (f : Frame) (n : Nat) (hw : wrote es = [f])
    (hb : sentBytes es = (writeFrame f.1 f.2).take n) (hc : CutOff es f) (hp : p.closing = true)

/-- The bytes sent are the frames written, up to the cut in the last one. -/
def Sent (p : Phase) (es : List Effect) : Prop :=
  sentBytes es = writeFrames (wrote es) ∨
    p.closing = true ∧ ∃ fs f n, wrote es = fs ++ [f] ∧ CutOff es f ∧
      sentBytes es = writeFrames fs ++ (writeFrame f.1 f.2).take n

/-- The ID has been accepted: the viewport is applied next, or has been. -/
def Authenticated (t : Conn × List Effect) : Prop :=
  (∃ vp, t.1.phase = .authenticated vp) ∨ sessionOf t.2 ≠ none

/-- What has been written where the session stands. -/
def Told (p : Phase) (es : List Effect) (ps : List Processed) : Prop :=
  match p with
  | .hello | .rejected | .refusing _ | .authenticated _ =>
    sessionOf es = none ∧ wrote es = [] ∧ ps = []
  | .sized .. => wrote es = [] ∧ ps = []
  | .greeted .. => (∃ enc token, wrote es = (greeting H S enc token).take 1) ∧ ps = []
  | .announced .. | .connected .. => (∃ enc token, wrote es = greeting H S enc token) ∧ ps = []
  | .returned => sessionOf es = none ∨ Answered H S es ps ∨
      (∃ enc token, wrote es <+: greeting H S enc token) ∧ ps = [] ∧ ∃ f, CutOff es f
  | _ => Answered H S es ps

end

@[simp] theorem wrote_append (es es' : List Effect) : wrote (es ++ es') = wrote es ++ wrote es' :=
  List.filterMap_append

@[simp] theorem sentBytes_append (es es' : List Effect) :
    sentBytes (es ++ es') = sentBytes es ++ sentBytes es' := List.flatMap_append

theorem cutOff_append (es : List Effect) :
    ∃ f, CutOff (es ++ [.wrote typ payload (.failed n)]) f :=
  ⟨(typ, payload), n, List.mem_append_right es List.mem_cons_self⟩

section
variable {H : HostState} {S : Serde} {addr : IpAddr}

theorem Answered.keep (h : Answered H S es ps) (hw : wrote es' = [])
    (hq : qs.filter Processed.answered = []) : Answered H S (es ++ es') (ps ++ qs) := by
  obtain ⟨enc, token, outs, hwrote, hreply⟩ := h
  refine ⟨enc, token, outs, ?_, ?_⟩
  · rw [wrote_append, hw, List.append_nil, hwrote]
  · rw [List.filter_append, hq, List.append_nil]
    exact hreply

theorem Answered.reply (h : Answered H S es ps) (hw : wrote es' = [f]) (hq : q.answered = true)
    (hr : Reply q f) : Answered H S (es ++ es') (ps ++ [q]) := by
  obtain ⟨enc, token, outs, hwrote, hreply⟩ := h
  refine ⟨enc, token, outs ++ [f], ?_, ?_⟩
  · rw [wrote_append, hw, hwrote, List.append_assoc]
  · rw [List.filter_append, List.filter_cons_of_pos hq, List.filter_nil]
    exact List.rel_append hreply (.cons hr .nil)

theorem Told.of_answered (h : Answered H S es ps) (hp : p.looped = true) :
    Told H S p es ps := by
  cases p with
  | streaming | stopping | restoring | disconnecting | finishing => exact h
  | returned => exact .inr (.inl h)
  | _ => cases hp

theorem answered_eq_false (h : f.1 = Proto.ping → ¬8 ≤ f.2.length) :
    [Processed.frame f].filter Processed.answered = [] := by
  simp only [List.filter_cons, List.filter_nil, Processed.answered, Bool.and_eq_true,
    decide_eq_true_eq]
  split
  · next hping => exact absurd hping.2 (h hping.1)
  · rfl

theorem Reply.pong (hlen : 8 ≤ f.2.length) (now : Nat) :
    Reply (.frame f) (Proto.pong, f.2.take 8 ++ toBE 8 now) := by
  have h8 : (f.2.take 8).length = 8 := List.length_take_of_le hlen
  have h16 : (f.2.take 8 ++ toBE 8 now).length = 16 := by
    rw [List.length_append, h8, length_toBE]
  exact ⟨rfl, h16, List.take_left' h8⟩

theorem Answered.dispatch (h : Answered H S es ps) (hd : Dispatches S l f a p es') :
    Told H S p (es ++ .dispatched f :: es') (ps ++ [.frame f]) := by
  have hkeep (hw : wrote es' = []) (hp : f.1 = Proto.ping → ¬8 ≤ f.2.length) :
      Answered H S (es ++ .dispatched f :: es') (ps ++ [.frame f]) :=
    h.keep hw (answered_eq_false hp)
  have hpong (now : Nat) (hf : f.1 = Proto.ping) (hlen : 8 ≤ f.2.length)
      (hw : wrote es' = [(Proto.pong, f.2.take 8 ++ toBE 8 now)]) :
      Answered H S (es ++ .dispatched f :: es') (ps ++ [.frame f]) :=
    h.reply hw (by simp [Processed.answered, hf, hlen]) (.pong hlen now)
  cases hd with
  | ignored hu hv hp => exact hkeep rfl hp
  | uiScale hf =>
    have hw (b : Bool) (x y : Nat) (q : ℚ) :
        wrote (.applyUiScale q :: if b then [.setScreen x y] else []) = [] := by cases b <;> rfl
    exact hkeep (hw _ _ _ _) (by simp [hf, Proto.uiScale, Proto.ping])
  | viewport hf => exact hkeep rfl (by simp [hf, Proto.viewport, Proto.ping])
  | badViewport hf =>
    exact .of_answered (hkeep rfl (by simp [hf, Proto.viewport, Proto.ping])) rfl
  | input hf => exact hkeep rfl (by simp [hf, Proto.input, Proto.ping])
  | pong hf hlen => exact hpong a.now hf hlen rfl
  | pongFailed hf hlen => exact .of_answered (hpong a.now hf hlen rfl) rfl
  | bitrateHint hf => exact hkeep rfl (by simp [hf, Proto.bitrateHint, Proto.ping])
  | goodbye hf => exact hkeep rfl (by simp [hf, Proto.goodbye, Proto.ping])

theorem Answered.video (h : Answered H S es ps) (l : Loop) (au : NalUnit) (a : Answer) :
    Told H S (onVideo l au a).1 (es ++ (onVideo l au a).2) (ps ++ [.unit au]) := by
  have hreply : Reply (.unit au) (Proto.video,
      videoPayload (if au.keyframe then Proto.videoFlagKey else 0) au.ptsUs au.data) :=
    ⟨rfl, parseVideo_videoPayload _ _ _⟩
  rw [onVideo]
  split
  · exact h.reply rfl rfl hreply
  · exact h.reply rfl rfl hreply

theorem Told.next (h : Told H S p es ps) (hn : Proceeds H S addr a p p' es') :
    Told H S p' (es ++ es') ps := by
  have hanswered (h : Answered H S es ps) (hw : wrote es' = []) :
      Answered H S (es ++ es') ps := by
    have hkeep : Answered H S (es ++ es') (ps ++ []) := h.keep hw rfl
    rwa [List.append_nil] at hkeep
  have hsilent (hw : wrote es' = []) : wrote (es ++ es') = wrote es := by
    rw [wrote_append, hw, List.append_nil]
  cases hn with
  | limited =>
    obtain ⟨hs, hw, hps⟩ := h
    exact ⟨(sessionOf_append (by simp [Effect.session]) es).trans hs, (hsilent rfl).trans hw, hps⟩
  | refused => exact .inl ((sessionOf_append (by simp [Effect.session]) es).trans h.1)
  | sized =>
    obtain ⟨-, hw, hps⟩ := h
    exact ⟨(hsilent rfl).trans hw, hps⟩
  | @greeted vp enc hw =>
    obtain ⟨hwrote, hps⟩ := h
    apply And.intro _ hps
    exact ⟨enc, a.token, by rw [wrote_append, hwrote]; rfl⟩
  | @notGreeted n vp enc hw =>
    obtain ⟨hwrote, hps⟩ := h
    refine .inr (.inr ⟨⟨enc, a.token, ?_⟩, hps, cutOff_append es⟩)
    rw [wrote_append, hwrote]
    exact ⟨[(Proto.status, statusReply H S)], rfl⟩
  | announced hw =>
    obtain ⟨⟨enc, token, hwrote⟩, hps⟩ := h
    apply And.intro _ hps
    exact ⟨enc, token, by rw [wrote_append, hwrote]; rfl⟩
  | @notAnnounced n vp enc' hw =>
    obtain ⟨⟨enc, token, hwrote⟩, hps⟩ := h
    refine .inr (.inr ⟨⟨enc, token, ?_⟩, hps, cutOff_append es⟩)
    rw [wrote_append, hwrote]
    exact List.prefix_rfl
  | connected =>
    obtain ⟨⟨enc, token, hwrote⟩, hps⟩ := h
    exact ⟨⟨enc, token, (hsilent rfl).trans hwrote⟩, hps⟩
  | streaming =>
    obtain ⟨⟨enc, token, hwrote⟩, rfl⟩ := h
    refine ⟨enc, token, [], ?_, .nil⟩
    rw [hsilent rfl, hwrote, List.append_nil]
  | notStreaming =>
    obtain ⟨⟨enc, token, hwrote⟩, rfl⟩ := h
    refine .inr (.inl ⟨enc, token, [], ?_, .nil⟩)
    rw [hsilent rfl, hwrote, List.append_nil]
  | stopped | restored | disconnected => exact hanswered h rfl
  | finished => exact .of_answered (hanswered h rfl) rfl

theorem Conn.processes_hello {c : Conn} (hp : c.phase = .hello) (e : Event) :
    c.processes e = [] := by
  cases e with
  | recv | read => simp only [processes, hp]
  | _ => rfl

theorem Conn.processes_unread {c : Conn} (hf : ∀ f rest, c.fut.poll c.arrived ≠ .ready f rest)
    (a : Answer) : c.processes (.read a) = [] := by
  rw [processes]
  split
  · next hr => exact absurd hr (hf _ _)
  · rfl

theorem Conn.processes_frame {c : Conn} (hp : c.phase = .streaming l)
    (hf : c.fut.poll c.arrived = .ready f rest) (a : Answer) :
    c.processes (.read a) = [.frame f] := by
  simp only [processes, hp, hf]

theorem Conn.processes_unit {c : Conn} (hp : c.phase = .streaming l) (hq : l.queue = au :: queue)
    (a : Answer) : c.processes (.recv a) = [.unit au] := by
  simp only [processes, hp, hq, List.take_succ_cons, List.take_zero, List.map_cons, List.map_nil]

theorem Told.step (h : Conn.journal H S addr t e = some t')
    (ht : Told H S t.1.1.phase t.1.2 t.2) : Told H S t'.1.1.phase t'.1.2 t'.2 := by
  obtain ⟨⟨c, log⟩, ps⟩ := t
  obtain ⟨u, htrace, he⟩ := Option.map_eq_some_iff.1 h
  obtain ⟨⟨c', es⟩, hstep, hu⟩ := Option.map_eq_some_iff.1 htrace
  cases he
  cases hu
  have hg : c.Goes H S addr e c'.phase es := Conn.goes hstep
  simp only at ht ⊢
  generalize c'.phase = p at hg ⊢
  cases hg with
  | arrived | ended =>
    simpa only [Conn.processes, List.append_nil] using ht
  | pending a hne hf he =>
    rw [Conn.processes_unread (by simp [hf]), List.append_nil, List.append_nil]
    exact ht
  | queued au hp =>
    rw [hp] at ht
    have hq : c.processes (.enqueue au) = [] := rfl
    rw [hq, List.append_nil, List.append_nil]
    exact ht
  | @hello f rest a hp hf =>
    rw [hp] at ht
    rw [Conn.processes_hello hp, List.append_nil, List.append_nil]
    rcases onHello_cases H S f with h | h | ⟨vp, h⟩
    · rw [h]
      exact .inl ht.1
    · rw [h]
      exact ht
    · rw [h]
      exact ht
  | frame a hp hf =>
    rw [hp] at ht
    rw [Conn.processes_frame hp hf]
    exact Answered.dispatch ht (dispatches S _ _ a)
  | gone a hp =>
    rw [hp] at ht
    rw [Conn.processes_hello hp, List.append_nil, List.append_nil]
    exact .inl ht.1
  | left a hp hf =>
    rw [hp] at ht
    have hf' : ∀ f rest, c.fut.poll c.arrived ≠ .ready f rest := by
      rcases hf with ⟨e, hf⟩ | ⟨⟨fut, hf⟩, -⟩
      · simp [hf]
      · simp [hf]
    rw [Conn.processes_unread hf', List.append_nil, List.append_nil]
    exact ht
  | video a hp hq =>
    rw [hp] at ht
    rw [Conn.processes_unit hp hq]
    exact Answered.video ht _ _ a
  | next a hn =>
    simpa only [Conn.processes, List.append_nil] using ht.next (proceeds hn)

theorem sentBytes_eq_nil (h : wrote es = []) : sentBytes es = [] := by
  induction es with
  | nil => rfl
  | cons e es ih =>
    cases e with
    | wrote => cases h
    | _ => exact ih h

theorem CutOff.append (h : CutOff es f) (es' : List Effect) : CutOff (es ++ es') f := by
  obtain ⟨n, hn⟩ := h
  exact ⟨n, List.mem_append_left es' hn⟩

theorem Writes.wrote (hs : wrote es = []) (hw : w ≠ .done → p.closing = true) :
    Writes (.wrote typ payload w :: es) p := by
  have hone : DdrdeskHost.wrote (.wrote typ payload w :: es) = [(typ, payload)] :=
    congrArg ((typ, payload) :: ·) hs
  have hnil := sentBytes_eq_nil hs
  cases w with
  | done => exact .whole _ hone ((congrArg _ hnil).trans (List.append_nil _))
  | failed n =>
    exact .cut _ n hone ((congrArg _ hnil).trans (List.append_nil _)) ⟨n, List.mem_cons_self⟩
      (hw (by simp))

theorem Writes.dispatched (h : Writes es p) (f : Frame) : Writes (.dispatched f :: es) p := by
  cases h with
  | silent hw => exact .silent hw
  | whole f hw hb => exact .whole f hw hb
  | cut f n hw hb hc hp =>
    obtain ⟨m, hm⟩ := hc
    exact .cut f n hw hb ⟨m, List.mem_cons_of_mem _ hm⟩ hp

theorem Dispatches.writes (h : Dispatches S l f a p es) : Writes es p := by
  cases h with
  | uiScale =>
    apply Writes.silent
    cases l.injector <;> rfl
  | pong => exact .wrote rfl (by simp)
  | pongFailed => exact .wrote rfl fun _ => rfl
  | _ => exact .silent rfl

theorem Proceeds.writes (h : Proceeds H S addr a p p' es) : Writes es p' := by
  cases h with
  | refused => exact .wrote rfl fun _ => rfl
  | greeted | announced => exact .wrote rfl (by simp)
  | notGreeted | notAnnounced => exact .wrote rfl fun _ => rfl
  | _ => exact .silent rfl

theorem Conn.Goes.writes {c : Conn} (h : c.Goes H S addr e p es) : Writes es p := by
  cases h with
  | frame a hp hf => exact (dispatches S _ _ a).writes.dispatched _
  | video a hp hq =>
    rw [onVideo]
    split
    · next hw => exact .wrote rfl fun h => absurd hw h
    · exact .wrote rfl fun _ => rfl
  | next a hn => exact (proceeds hn).writes
  | _ => exact .silent rfl

theorem Conn.Goes.closing {c : Conn} (h : c.Goes H S addr e p es)
    (hc : c.phase.closing = true) : p.closing = true ∧ wrote es = [] := by
  cases h with
  | arrived | ended | pending => exact ⟨hc, rfl⟩
  | gone | left => exact ⟨rfl, rfl⟩
  | queued _ hp | hello _ hp | frame _ hp | video _ hp =>
    rw [hp] at hc
    cases hc
  | next a hn =>
    generalize c.phase = q at hn hc
    cases proceeds hn with
    | stopped | restored | disconnected | finished => exact ⟨rfl, rfl⟩
    | _ => cases hc

theorem Sent.step (h : Conn.trace H S addr t e = some t') (hs : Sent t.1.phase t.2) :
    Sent t'.1.phase t'.2 := by
  obtain ⟨⟨c', es⟩, hstep, hu⟩ := Option.map_eq_some_iff.1 h
  cases hu
  have hg := Conn.goes hstep
  simp only
  rcases hs with hb | ⟨hc, fs, f, n, hw, hcut, hb⟩
  · cases hg.writes with
    | silent hw =>
      refine .inl ?_
      rw [sentBytes_append, sentBytes_eq_nil hw, wrote_append, hw, List.append_nil,
        List.append_nil, hb]
    | whole f hw hbytes =>
      refine .inl ?_
      rw [sentBytes_append, hbytes, wrote_append, hw, writeFrames_append, writeFrames_singleton,
        hb]
    | cut f n hw hbytes hcut hp =>
      obtain ⟨m, hm⟩ := hcut
      refine .inr ⟨hp, DdrdeskHost.wrote t.2, f, n, ?_, ⟨m, List.mem_append_right _ hm⟩, ?_⟩
      · rw [wrote_append, hw]
      · rw [sentBytes_append, hbytes, hb]
  · obtain ⟨hp, hs⟩ := hg.closing hc
    refine .inr ⟨hp, fs, f, n, ?_, hcut.append es, ?_⟩
    · rw [wrote_append, hs, List.append_nil, hw]
    · rw [sentBytes_append, sentBytes_eq_nil hs, List.append_nil, hb]

theorem Sent.decodes (h : Sent p es) (hf : ∀ f ∈ wrote es, f.Fits) : Decodes es (wrote es) := by
  rcases h with hb | ⟨-, fs, f, n, hw, hcut, hb⟩
  · refine .inl ?_
    rw [hb]
    exact readFrames_writeFrames hf
  · rw [hw] at hf ⊢
    have hfs : ∀ g ∈ fs, g.Fits := fun g hg => hf g (List.mem_append_left _ hg)
    have hfit : f.Fits := hf f (List.mem_append_right _ List.mem_cons_self)
    have hpre : (writeFrame f.1 f.2).take n <+: writeFrame f.1 f.2 := List.take_prefix n _
    by_cases hlt : ((writeFrame f.1 f.2).take n).length < (writeFrame f.1 f.2).length
    · -- the last frame is cut
      have hnone : frameCode.decode ((writeFrame f.1 f.2).take n) = none := by
        apply frameCode.decode_truncated (s := []) hfit _ hlt
        rw [List.append_nil]
        exact hpre
      have hall := frameCode.decodeAll_encodeAll_append hfs ((writeFrame f.1 f.2).take n)
      rw [frameCode.decodeAll_none hnone, List.append_nil, ← hb] at hall
      obtain ⟨h₁, h₂⟩ := readFrames_decodeAll (sentBytes es)
      rw [hall] at h₁ h₂
      refine .inr ⟨fs, f, rfl, hcut, h₁, ?_⟩
      rw [h₂]
      exact hpre
    · -- all its bytes were sent before the write failed
      have hfull := hpre.eq_of_length_le (Nat.le_of_not_lt hlt)
      refine .inl ?_
      rw [hb, hfull, ← writeFrames_singleton, ← writeFrames_append]
      exact readFrames_writeFrames hf

theorem Reply.fits (h : Reply p f) (hu : ∀ au, p = .unit au → au.data.length + 10 ≤ maxFrame) :
    f.Fits := by
  cases p with
  | unit au =>
    have hlen := length_of_parseVideo h.2
    have hfit := hu au rfl
    change 1 + f.2.length ≤ maxFrame
    omega
  | frame g =>
    change 1 + f.2.length ≤ maxFrame
    rw [h.2.1]
    decide

theorem replies_fit (h : List.Forall₂ Reply ps outs)
    (hu : ∀ au, .unit au ∈ ps → au.data.length + 10 ≤ maxFrame) : ∀ f ∈ outs, f.Fits := by
  induction h with
  | nil => simp
  | cons hr hrs ih =>
    intro f hf
    rcases List.mem_cons.1 hf with rfl | hf
    · exact hr.fits fun au he => hu au (he ▸ List.mem_cons_self)
    · exact ih (fun au hm => hu au (List.mem_cons_of_mem _ hm)) f hf

theorem Told.written (h : Told H S t.1.phase t.2 ps) (hauth : Authenticated t) :
    Answered H S t.2 ps ∨ ps = [] ∧ (∃ enc token, wrote t.2 <+: greeting H S enc token) ∧
      (t.1.phase = .returned → ∃ f, CutOff t.2 f) := by
  have hstart (hw : wrote t.2 = []) : ∃ enc token, wrote t.2 <+: greeting H S enc token :=
    ⟨(0, 0), "", by rw [hw]; exact List.nil_prefix⟩
  cases hp : t.1.phase with
  | hello | rejected | refusing =>
    rw [hp] at h
    rcases hauth with ⟨vp, ha⟩ | hs
    · cases hp.symm.trans ha
    · exact absurd h.1 hs
  | authenticated | sized =>
    rw [hp] at h
    obtain ⟨hw, hps⟩ : wrote t.2 = [] ∧ ps = [] := by first | exact h.2 | exact h
    exact .inr ⟨hps, hstart hw, by simp⟩
  | greeted =>
    rw [hp] at h
    obtain ⟨⟨enc, token, hw⟩, hps⟩ := h
    exact .inr ⟨hps, ⟨enc, token, hw ▸ List.take_prefix _ _⟩, by simp⟩
  | announced | connected =>
    rw [hp] at h
    obtain ⟨⟨enc, token, hw⟩, hps⟩ := h
    exact .inr ⟨hps, ⟨enc, token, hw ▸ List.prefix_rfl⟩, by simp⟩
  | streaming | stopping | restoring | disconnecting | finishing =>
    rw [hp] at h
    exact .inl h
  | returned =>
    rw [hp] at h
    rcases hauth with ⟨vp, ha⟩ | hs
    · cases hp.symm.trans ha
    · rcases h with h | h | ⟨hw, hps, hcut⟩
      · exact absurd h hs
      · exact .inl h
      · exact .inr ⟨hps, hw, fun _ => hcut⟩

theorem journal_run (h : Run (Steps (Conn.journal H S addr)) (({}, []), []) evs (t, ps)) :
    Told H S t.1.phase t.2 ps ∧ Sent t.1.phase t.2 := by
  apply h.invariant (I := fun u => Told H S u.1.1.phase u.1.2 u.2 ∧ Sent u.1.1.phase u.1.2)
  · intro u e u' hu hst
    obtain ⟨v, htrace, hv⟩ := Option.map_eq_some_iff.1 hst
    cases hv
    exact ⟨hu.1.step hst, hu.2.step htrace⟩
  · exact ⟨⟨rfl, rfl, rfl⟩, .inl rfl⟩

end

/-- An authenticated session sends its greeting, and then the answers to what it processes, each
once and in order; the client decodes these frames from the bytes it gets. -/
theorem session_output (H : HostState) (S : Serde) (addr : IpAddr) (evs : List Event)
    (t : Conn × List Effect) (ps : List Processed)
    (hrun : Run (Steps (Conn.journal H S addr)) (({}, []), []) evs (t, ps))
    (hg : GreetingFits H S t.2) (hauth : Authenticated t)
    (hu : ∀ au, .unit au ∈ ps → au.data.length + 10 ≤ maxFrame) :
    ∃ fs, Decodes t.2 fs ∧
      ((∃ enc token outs, fs = greeting H S enc token ++ outs ∧
          List.Forall₂ Reply (ps.filter Processed.answered) outs) ∨
        ps = [] ∧ (∃ enc token, fs <+: greeting H S enc token) ∧
          (t.1.phase = .returned → ∃ f, CutOff t.2 f)) := by
  obtain ⟨htold, hsent⟩ := journal_run hrun
  have hw := htold.written hauth
  have hfits : ∀ f ∈ wrote t.2, f.Fits := by
    rcases hw with ⟨enc, token, outs, hwrote, hreply⟩ | ⟨-, ⟨enc, token, hpre⟩, -⟩
    · intro f hf
      rcases List.mem_append.1 (hwrote ▸ hf) with hm | hm
      · exact hg enc token f hm hf
      · exact replies_fit hreply (fun au hm => hu au (List.mem_of_mem_filter hm)) f hm
    · intro f hf
      exact hg enc token f (hpre.subset hf) hf
  exact ⟨wrote t.2, hsent.decodes hfits, hw⟩

/-- An access unit is dequeued, and a PING answered. -/
def unitAndPing : List Event :=
  connected ++ [.enqueue ⟨true, 40, [0, 0, 0, 1, 7]⟩, .recv {},
    .arrive (writeFrame Proto.ping [1, 2, 3, 4, 5, 6, 7, 8]), .read {}]

theorem session_output_unit_and_ping :
    ∃ t ps fs, ps.filter Processed.answered = [.unit ⟨true, 40, [0, 0, 0, 1, 7]⟩,
        .frame (Proto.ping, [1, 2, 3, 4, 5, 6, 7, 8])] ∧
      Run (Steps (Conn.journal sampleHost sampleSerde (.v4 0))) (({}, []), []) unitAndPing
        (t, ps) ∧ Decodes t.2 fs ∧
      ∃ enc token outs, fs = greeting sampleHost sampleSerde enc token ++ outs ∧
        List.Forall₂ Reply (ps.filter Processed.answered) outs := by
  have hrun : (unitAndPing.foldlM (Conn.journal sampleHost sampleSerde (.v4 0))
        (({}, []), [])).map (fun u => (u.2, (sessionOf u.1.2).isSome)) =
      some ([.unit ⟨true, 40, [0, 0, 0, 1, 7]⟩,
        .frame (Proto.ping, [1, 2, 3, 4, 5, 6, 7, 8])], true) := by decide +kernel
  obtain ⟨⟨t, ps⟩, ht, hu⟩ := Option.map_eq_some_iff.1 hrun
  obtain ⟨rfl, hs⟩ := Prod.mk.inj hu
  have hauth : Authenticated t := by
    refine .inr fun h => ?_
    rw [h] at hs
    cases hs
  have hfit : GreetingFits sampleHost sampleSerde t.2 := by
    intro enc token f hf _
    rcases List.mem_cons.1 hf with rfl | hf
    · change 1 + 0 ≤ maxFrame
      decide
    · rw [List.mem_singleton.1 hf]
      change 1 + 0 ≤ maxFrame
      decide
  obtain ⟨fs, hdec, hfs | ⟨hnil, -⟩⟩ := session_output sampleHost sampleSerde (.v4 0) unitAndPing
    t _ (run_steps_iff.2 ht) hfit hauth (by simp [maxFrame])
  · exact ⟨t, _, fs, rfl, run_steps_iff.2 ht, hdec, hfs⟩
  · cases hnil

end DdrdeskHost
