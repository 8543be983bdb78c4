import DdrdeskHost.SessionRead

namespace DdrdeskHost
set_option autoImplicit true

/-- A connection that enters the select loop, with the bytes that came behind its ClientHello. -/
def loopStart (l : Loop) (early : List UInt8) : Conn × List Effect :=
  ({ arrived := early, phase := .streaming l }, [])

/-- The video branch completes only while no frame has been read in part. -/
def AtBoundary (t : Conn × List Effect) (e : Event) : Prop :=
  ∀ a, e = .recv a → t.1.fut.bytes = []

section
variable {H : HostState} {S : Serde} {addr : IpAddr}

/-- The current read lacks bytes, and the handshake is over. -/
def Reading (t : Conn × List Effect) : Prop := t.1.fut.InFlight ∧ t.1.phase ≠ .hello

theorem Reading.start (l : Loop) (early : List UInt8) : Reading (loopStart l early) :=
  ⟨Nat.succ_pos _, by simp [loopStart]⟩

/-- The dispatched frames and the unread bytes are what was sent. -/
def Accounted (sent : List UInt8) (t : Conn × List Effect) : Prop :=
  (∀ f ∈ dispatchedFrames t.2, f.Fits) ∧ writeFrames (dispatchedFrames t.2) ++ t.1.unread = sent

/-- Fewer bytes are dispatched or unread than were sent. -/
def Lossy (sent : List UInt8) (t : Conn × List Effect) : Prop :=
  (writeFrames (dispatchedFrames t.2)).length + t.1.unread.length < sent.length

theorem Accounted.length (h : Accounted sent t) :
    (writeFrames (dispatchedFrames t.2)).length + t.1.unread.length = sent.length := by
  rw [← h.2, List.length_append]

theorem trace_step (h : Conn.trace H S addr t e = some t') (hr : Reading t) :
    Reading t' ∧ ∃ fs, dispatchedFrames t'.2 = dispatchedFrames t.2 ++ fs ∧
      ReadStep t.1 e t'.1 fs := by
  obtain ⟨⟨c', es⟩, hstep, he⟩ := Option.map_eq_some_iff.1 h
  cases he
  obtain ⟨hfl, hp, hread⟩ := Conn.step_read hstep hr.1 hr.2
  exact ⟨⟨hfl, hp⟩, dispatchedFrames es, dispatchedFrames_append _ _, hread⟩

theorem Accounted.step (h : Conn.trace H S addr t e = some t') (hr : Reading t)
    (ha : Accounted sent t) (hb : AtBoundary t e) : Accounted (sent ++ e.bytes) t' := by
  obtain ⟨-, fs, hfs, hread⟩ := trace_step h hr
  obtain ⟨hfit, hsent⟩ := ha
  unfold Accounted
  rw [hfs, writeFrames_append, ← hsent]
  cases hread with
  | keep _ hu =>
    rw [List.append_nil, hu]
    exact ⟨hfit, by simp only [PrefixCode.encodeAll_nil, List.append_nil, List.append_assoc]⟩
  | @frame f _ hbytes hf hu =>
    constructor
    · intro g hg
      rcases List.mem_append.1 hg with hg | hg
      · exact hfit g hg
      · rw [List.mem_singleton.1 hg]
        exact hf
    · rw [hbytes, List.append_nil, hu, writeFrames_singleton, List.append_assoc]
  | drop he hu =>
    have hnil := hb _ he
    subst he
    rw [List.append_nil, hu, Conn.unread, hnil]
    exact ⟨hfit, by simp only [PrefixCode.encodeAll_nil, List.append_nil, Event.bytes,
      List.nil_append]⟩

theorem Accounted.step_lossy (h : Conn.trace H S addr t e = some t') (hr : Reading t)
    (ha : Accounted sent t) (hb : ¬AtBoundary t e) : Lossy (sent ++ e.bytes) t' := by
  obtain ⟨-, fs, hfs, hread⟩ := trace_step h hr
  have hlen := ha.length
  have hrecv : ∃ a, e = .recv a ∧ t.1.fut.bytes ≠ [] := by
    simpa only [AtBoundary, not_forall, exists_prop] using hb
  obtain ⟨a, rfl, hne⟩ := hrecv
  have hpos := List.length_pos_of_ne_nil hne
  cases hread with
  | keep hno _ => exact absurd rfl (hno a)
  | frame hno _ _ _ => exact absurd rfl (hno a)
  | drop _ hu =>
    simp only [Lossy, hfs, hu, List.append_nil, Event.bytes]
    simp only [Conn.unread, List.length_append] at hlen
    omega

/-- Bytes that were dropped never come back. -/
theorem Lossy.step (h : Conn.trace H S addr t e = some t') (hr : Reading t)
    (hl : Lossy sent t) : Lossy (sent ++ e.bytes) t' := by
  obtain ⟨-, fs, hfs, hread⟩ := trace_step h hr
  simp only [Lossy, hfs, writeFrames_append, List.length_append] at hl ⊢
  cases hread with
  | keep _ hu =>
    rw [hu, List.length_append, writeFrames_nil, List.length_nil]
    omega
  | @frame f _ _ _ hu =>
    rw [hu, List.length_append] at hl
    rw [writeFrames_singleton]
    omega
  | drop he hu =>
    rw [Conn.unread, List.length_append] at hl
    rw [hu, writeFrames_nil, List.length_nil]
    omega

theorem Accounted.run (hrun : Run (Guard AtBoundary (Steps (Conn.trace H S addr)))
    (loopStart l early) evs t) : Reading t ∧ Accounted (early ++ delivered evs) t := by
  have h : Reading t ∧ Accounted (early ++ delivered ([] ++ evs)) t := by
    apply hrun.invariant_trace (I := fun p t => Reading t ∧ Accounted (early ++ delivered p) t)
    · intro p s e u hs hst
      rw [delivered_append, delivered_singleton, ← List.append_assoc]
      exact ⟨(trace_step hst.2 hs.1).1, hs.2.step hst.2 hs.1 hst.1⟩
    · exact ⟨Reading.start l early, by simp [loopStart, dispatchedFrames],
        (List.append_nil _).symm⟩
  simpa only [List.nil_append] using h

/-- A run either drops no part of a frame, or its account stays short. -/
theorem run_boundary_or_lossy (hrun : Run (Steps (Conn.trace H S addr)) (loopStart l early) evs t) :
    Run (Guard AtBoundary (Steps (Conn.trace H S addr))) (loopStart l early) evs t ∨
      Lossy (early ++ delivered evs) t := by
  have h : Reading t ∧
      (Run (Guard AtBoundary (Steps (Conn.trace H S addr))) (loopStart l early) ([] ++ evs) t ∨
        Lossy (early ++ delivered ([] ++ evs)) t) := by
    apply hrun.invariant_trace (I := fun p t => Reading t ∧
      (Run (Guard AtBoundary (Steps (Conn.trace H S addr))) (loopStart l early) p t ∨
        Lossy (early ++ delivered p) t))
    · intro p s e u hs hst
      have hr := (trace_step hst hs.1).1
      rw [delivered_append, delivered_singleton, ← List.append_assoc]
      rcases hs.2 with hg | hl
      · by_cases hb : AtBoundary s e
        · exact ⟨hr, .inl (hg.append (.single ⟨hb, hst⟩))⟩
        · exact ⟨hr, .inr ((Accounted.run hg).2.step_lossy hst hs.1 hb)⟩
      · exact ⟨hr, .inr (hl.step hst hs.1)⟩
    · exact ⟨Reading.start l early, .inl (.nil _)⟩
  exact h.2

end

/-- While no read is dropped in the middle of a frame, the select loop dispatches a prefix of the
frames the client sent. Once all their bytes have arrived and been read, it has dispatched exactly
those frames if and only if no read was dropped so. -/
theorem select_loop_frames (H : HostState) (S : Serde) (addr : IpAddr) (l : Loop)
    (early : List UInt8) (fs : List Frame) (evs : List Event) (t : Conn × List Effect)
    (hf : ∀ f ∈ fs, f.Fits) (hrun : Run (Steps (Conn.trace H S addr)) (loopStart l early) evs t)
    (hsent : early ++ delivered evs <+: writeFrames fs) :
    (Run (Guard AtBoundary (Steps (Conn.trace H S addr))) (loopStart l early) evs t →
      dispatchedFrames t.2 <+: fs) ∧
    (early ++ delivered evs = writeFrames fs → t.1.arrived = [] →
      (dispatchedFrames t.2 = fs ↔
        Run (Guard AtBoundary (Steps (Conn.trace H S addr))) (loopStart l early) evs t)) := by
  constructor
  · intro hg
    obtain ⟨-, hfit, hacc⟩ := Accounted.run hg
    obtain ⟨rest, hrest⟩ := hsent
    rw [← hacc, List.append_assoc] at hrest
    obtain ⟨tail, htail, -⟩ := frameCode.encodeAll_append_eq hfit hf hrest
    exact ⟨tail, htail.symm⟩
  · intro hall hread
    constructor
    · intro hd
      rcases run_boundary_or_lossy hrun with hg | hl
      · exact hg
      · -- every byte is in a dispatched frame, so none was dropped
        rw [Lossy, hd, hall] at hl
        omega
    · intro hg
      obtain ⟨⟨hfl, -⟩, hfit, hacc⟩ := Accounted.run hg
      rw [hall, Conn.unread, hread, List.append_nil] at hacc
      obtain ⟨tail, htail, hbytes⟩ := frameCode.encodeAll_append_eq hfit hf hacc
      have hnone := hfl.decode
      rw [hbytes] at hnone
      cases tail with
      | nil => rw [htail, List.append_nil]
      | cons f tail =>
        have hv : f.Fits := hf f (htail ▸ List.mem_append_right _ List.mem_cons_self)
        rw [PrefixCode.encodeAll_cons, frameCode.decode_encode hv] at hnone
        cases hnone

/-- The loop of a session without an input device. -/
def sampleLoop : Loop :=
  { vp := ⟨1280, 800, 0, 0, 1, "landscape"⟩, enc := (1280, 800), injector := false,
    pointerScale := 1 }

def sampleHost : HostState := ⟨"582914337", "fedora", [], ""⟩

/-- A JSON library that rejects everything. -/
def noSerde : Serde :=
  ⟨fun _ => none, fun _ => none, fun _ => none, fun _ => none, fun _ => none, fun _ => [],
    fun _ => [], fun _ => []⟩

/-- An access unit lands after five bytes of a ten-byte frame; the other five read as a frame that
the client never sent. -/
theorem select_loop_loses_frame :
    ¬∀ (H : HostState) (S : Serde) (addr : IpAddr) (l : Loop) (fs : List Frame)
      (evs : List Event) (t : Conn × List Effect),
      (∀ f ∈ fs, f.Fits ∧ f.1 ≠ Proto.goodbye ∧ (f.1 = Proto.viewport → S.viewport f.2 ≠ none)) →
      Run (Steps (Conn.trace H S addr)) (loopStart l []) evs t →
      delivered evs <+: writeFrames fs → dispatchedFrames t.2 <+: fs := by
  intro h
  have hrun : ([.arrive [0, 0, 0, 6, 9], .read {}, .enqueue ⟨true, 0, [1]⟩, .recv {},
      .arrive [0, 0, 0, 1, 5], .read {}].foldlM (Conn.trace sampleHost noSerde (.v4 0))
        (loopStart sampleLoop [])).map (fun t => dispatchedFrames t.2) =
      some [(Proto.input, [])] := by decide +kernel
  obtain ⟨t, ht, hd⟩ := Option.map_eq_some_iff.1 hrun
  have hpre := h sampleHost noSerde (.v4 0) sampleLoop [(Proto.requestKeyframe, [0, 0, 0, 1, 5])]
    _ t (by decide) (run_steps_iff.2 ht) ⟨[], rfl⟩
  rw [hd] at hpre
  exact absurd hpre (by decide)

/-- A frame whose two parts are read with no access unit between them. -/
theorem select_loop_frames_whole :
    ∃ evs t, delivered evs = writeFrames [(Proto.requestKeyframe, [0, 0, 0, 1, 5])] ∧
      (dispatchedFrames t.2 = [(Proto.requestKeyframe, [0, 0, 0, 1, 5])] ↔
        Run (Guard AtBoundary (Steps (Conn.trace sampleHost noSerde (.v4 0))))
          (loopStart sampleLoop []) evs t) := by
  have hrun : ([.arrive [0, 0, 0, 6, 9], .read {}, .arrive [0, 0, 0, 1, 5], .read {}].foldlM
        (Conn.trace sampleHost noSerde (.v4 0)) (loopStart sampleLoop [])).map
      (fun t => t.1.arrived) = some [] := by decide +kernel
  obtain ⟨t, ht, hr⟩ := Option.map_eq_some_iff.1 hrun
  exact ⟨_, t, rfl, (select_loop_frames sampleHost noSerde (.v4 0) sampleLoop []
    [(Proto.requestKeyframe, [0, 0, 0, 1, 5])] _ t (by decide) (run_steps_iff.2 ht)
    List.prefix_rfl).2 rfl hr⟩

end DdrdeskHost
