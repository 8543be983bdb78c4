import DdrdeskHost.Cleanup
import DdrdeskHost.Keyframes

namespace DdrdeskHost
open Bytes
set_option autoImplicit true

/-- Repeated calls of `next_au` on the stream return this unit among others. -/
def Yields (stream : List UInt8) (au : NalUnit) : Prop :=
  ∃ us x, Run (Steps nextUnit) ({}, stream) (us ++ [au]) x

/-- The VIDEO frames of the session read back as they were written. -/
def VideoReadable (es : List Effect) : Prop :=
  ∀ payload w rest, .wrote Proto.video payload w ∈ es →
    readFrame (writeFrame Proto.video payload ++ rest) = .ok ((Proto.video, payload), rest)

/-- The picture of each tag that the demuxer gets to fits in a frame: its NAL units that are not
empty, and before those of a keyframe the parameter sets in force, each behind a start code. -/
def PicturesFit (stream : List UInt8) : Prop :=
  ∀ pre t post s key body nals, tagsOf stream = pre ++ t :: post →
    Sets.new.after pre = some s → t.content = .picture key body →
    nalsOf s.lengthSize s.lengthSize_pos body = some nals →
    10 + (annexB (s.nals key nals)).length ≤ maxFrame

theorem video_fits (au : NalUnit) (flags : UInt8) :
    Frame.Fits (Proto.video, videoPayload flags au.ptsUs au.data) ↔
      10 + au.data.length ≤ maxFrame := by
  have hlen := length_of_parseVideo (parseVideo_videoPayload flags au.ptsUs au.data)
  change 1 + (videoPayload flags au.ptsUs au.data).length ≤ maxFrame ↔ _
  rw [hlen]
  omega

theorem picturesFit_iff : PicturesFit stream ↔
    ∀ au, Yields stream au → 10 + au.data.length ≤ maxFrame := by
  constructor
  · rintro h au ⟨us, ⟨d, r⟩, hrun⟩
    obtain ⟨pre, t, post, s, body, nals, -, htags, hpre, hc, hn, -, hdata⟩ := picture_of_run hrun
    rw [hdata]
    exact h pre t post s _ body nals htags hpre hc hn
  · intro h pre t post s key body nals htags hpre hc hn
    by_cases hne : s.nals key nals = []
    · rw [hne]
      decide
    · obtain ⟨us, u, d, r, hrun, -, -, hdata⟩ := run_of_picture htags hpre hc hn hne
      rw [← hdata]
      exact h u ⟨us, _, hrun⟩

section
variable {H : HostState} {S : Serde} {addr : IpAddr}

/-- What is queued has been put there. -/
def Queued (evs : List Event) (t : Conn × List Effect) : Prop :=
  ∀ l, t.1.phase = .streaming l → ∀ au ∈ l.queue, .enqueue au ∈ evs

theorem Dispatches.queue (h : Dispatches S l f a (.streaming l') es) : l'.queue = l.queue := by
  cases h <;> rfl

theorem onHello_ne_streaming (H : HostState) (S : Serde) (f : Frame) (l : Loop) :
    onHello H S f ≠ .streaming l := by
  rcases onHello_cases H S f with h | h | ⟨vp, h⟩ <;> rw [h] <;> simp

theorem Queued.step (h : Conn.trace H S addr t e = some t') (hq : Queued evs t) :
    Queued (evs ++ [e]) t' := by
  obtain ⟨⟨c', es⟩, hstep, hu⟩ := Option.map_eq_some_iff.1 h
  cases hu
  obtain ⟨c, log⟩ := t
  have hg : c.Goes H S addr e c'.phase es := Conn.goes hstep
  have hkeep {l : Loop} (hp : c.phase = .streaming l) : ∀ au ∈ l.queue, .enqueue au ∈ evs ++ [e] :=
    fun au hm => List.mem_append_left _ (hq l hp au hm)
  intro l' hl
  simp only at hl
  generalize c'.phase = p at hg hl
  cases hg with
  | arrived | ended | pending => exact hkeep hl
  | queued au hp =>
    cases hl
    intro v hv
    rcases List.mem_append.1 hv with hv | hv
    · exact hkeep hp v hv
    · rw [List.mem_singleton.1 hv]
      exact List.mem_append_right _ List.mem_cons_self
  | hello a hp hf => exact absurd hl (onHello_ne_streaming _ _ _ _)
  | @frame l f rest a hp hf =>
    have hd := dispatches S l f a
    rw [hl] at hd
    rw [hd.queue]
    exact hkeep hp
  | gone | left => cases hl
  | video a hp hv =>
    rw [onVideo] at hl
    split at hl
    · cases hl
      intro v hm
      exact hkeep hp v (hv ▸ List.mem_cons_of_mem _ hm)
    · cases hl
  | next a hn =>
    have hpr := proceeds hn
    rw [hl] at hpr
    generalize c.phase = q at hpr
    cases hpr
    simp [Loop.start]

theorem Queued.run (h : Run (Steps (Conn.trace H S addr)) ({}, []) evs t) : Queued evs t := by
  apply h.invariant_trace (p := []) (I := fun p t => Queued p t)
  · intro p s e u hs hst
    exact hs.step hst
  · intro l hl
    cases hl

theorem Dispatches.no_video (h : Dispatches S l f a p es) :
    .wrote Proto.video payload w ∉ es := by
  cases h with
  | uiScale => cases l.injector <;> simp
  | pong | pongFailed => simp [Proto.video, Proto.pong]
  | _ => simp

theorem Proceeds.no_video (h : Proceeds H S addr a p p' es) :
    .wrote Proto.video payload w ∉ es := by
  cases h <;> simp [Proto.video, Proto.authFail, Proto.serverHello, Proto.status]

theorem Conn.Goes.video_wrote {c : Conn} (h : c.Goes H S addr e p es)
    (hm : .wrote Proto.video payload w ∈ es) :
    ∃ l au queue, c.phase = .streaming l ∧ l.queue = au :: queue ∧
      payload = videoPayload (if au.keyframe then Proto.videoFlagKey else 0) au.ptsUs au.data := by
  cases h with
  | arrived | ended | pending | queued | hello | gone | left => simp at hm
  | @frame l f rest a hp hf =>
    rcases List.mem_cons.1 hm with hm | hm
    · cases hm
    · exact absurd hm (dispatches S l f a).no_video
  | video a hp hq =>
    refine ⟨_, _, _, hp, hq, ?_⟩
    rw [onVideo] at hm
    split at hm
    · cases List.mem_singleton.1 hm
      rfl
    · cases List.mem_singleton.1 hm
      rfl
  | next a hn => exact absurd hm (proceeds hn).no_video

theorem video_written (h : Run (Steps (Conn.trace H S addr)) ({}, []) evs t)
    (hm : .wrote Proto.video payload w ∈ t.2) :
    ∃ au, .enqueue au ∈ evs ∧
      payload = videoPayload (if au.keyframe then Proto.videoFlagKey else 0) au.ptsUs au.data := by
  obtain ⟨p, q, ht⟩ := List.append_of_mem hm
  obtain ⟨evs₁, e, evs₂, r, es₁, c', es₂, rfl, hr, -, hstep⟩ := Conn.exists_made h ht
  obtain ⟨l, au, queue, hp, hq, rfl⟩ := (Conn.goes hstep).video_wrote
    (List.mem_append_right es₁ List.mem_cons_self)
  have hau := Queued.run hr l hp au (hq ▸ List.mem_cons_self)
  exact ⟨au, List.mem_append_left _ hau, rfl⟩

end

theorem exists_video_written (au : NalUnit) :
    ∃ evs t, Run (Steps (Conn.trace sampleHost sampleSerde (.v4 0))) ({}, []) evs t ∧
      (∀ v, .enqueue v ∈ evs → v = au) ∧
      .wrote Proto.video (videoPayload (if au.keyframe then Proto.videoFlagKey else 0) au.ptsUs
        au.data) .done ∈ t.2 := by
  have hrun : (connected.foldlM (Conn.trace sampleHost sampleSerde (.v4 0)) ({}, [])).map
      (fun t => t.1.phase) =
        some (.streaming (.start ⟨2556, 1179, 852, 393, 3, "landscape"⟩ (1280, 800) true)) := by
    decide +kernel
  obtain ⟨⟨c, log⟩, ht, hp⟩ := Option.map_eq_some_iff.1 hrun
  simp only at hp
  generalize hl : Loop.start ⟨2556, 1179, 852, 393, 3, "landscape"⟩ (1280, 800) true = l at hp
  have hq : l.queue = [] := by rw [← hl]; rfl
  have henqueue : Conn.step sampleHost sampleSerde (.v4 0) c (.enqueue au) =
      some ({ c with phase := .streaming { l with queue := [au] } }, []) := by
    simp [Conn.step, hp, hq]
  have hrecv : Conn.step sampleHost sampleSerde (.v4 0)
      { c with phase := .streaming { l with queue := [au] } } (.recv {}) =
        some ({ c with fut := .lenb [], phase := (onVideo { l with queue := [] } au {}).1 },
          (onVideo { l with queue := [] } au {}).2) := rfl
  have h₁ : Steps (Conn.trace sampleHost sampleSerde (.v4 0)) (c, log) (.enqueue au) _ :=
    Conn.trace_eq henqueue log
  have h₂ : Steps (Conn.trace sampleHost sampleSerde (.v4 0)) _ (.recv {}) _ :=
    Conn.trace_eq hrecv (log ++ [])
  refine ⟨connected ++ [.enqueue au, .recv {}], _,
    (run_steps_iff.2 ht).append (.cons h₁ (.single h₂)), ?_, ?_⟩
  · intro v hv
    simpa [connected] using hv
  · exact List.mem_append_right _ List.mem_cons_self

theorem fits_of_readable (hau : Yields stream au)
    (h : ∀ (H : HostState) (S : Serde) (addr : IpAddr) (evs : List Event)
      (t : Conn × List Effect), Run (Steps (Conn.trace H S addr)) ({}, []) evs t →
      (∀ au, .enqueue au ∈ evs → Yields stream au) → VideoReadable t.2) :
    10 + au.data.length ≤ maxFrame := by
  obtain ⟨evs, t, hrun, hev, hm⟩ := exists_video_written au
  have hread := h _ _ _ evs t hrun (fun v hv => hev v hv ▸ hau) _ _ [] hm
  exact (video_fits au _).1 (readFrame_eq_ok hread).1

/-- The VIDEO frames that sessions write for the units of a stream can be read back, if and only if
the pictures that the demuxer gets to fit in frames. -/
theorem video_frames_readable (stream : List UInt8) :
    (∀ (H : HostState) (S : Serde) (addr : IpAddr) (evs : List Event) (t : Conn × List Effect),
      Run (Steps (Conn.trace H S addr)) ({}, []) evs t →
      (∀ au, .enqueue au ∈ evs → Yields stream au) → VideoReadable t.2) ↔
    PicturesFit stream := by
  rw [picturesFit_iff]
  constructor
  · intro h au hau
    exact fits_of_readable hau h
  · intro h H S addr evs t hrun hev payload w rest hm
    obtain ⟨au, hau, rfl⟩ := video_written hrun hm
    exact readFrame_writeFrame ((video_fits au _).2 (h au (hev au hau))) rest

theorem onePicture_yields {nal : List UInt8} (h : nal.length = 2 ^ 23) :
    ∃ au, Yields ((onePicture 2 nal).bytes 4 ++ []) au ∧ ¬10 + au.data.length ≤ maxFrame := by
  have hne : nal ≠ [] := by
    rintro rfl
    simp at h
  have hlen : ((onePicture 2 nal).body.data 4).length < 2 ^ 24 := by
    simp [onePicture, TagBody.data, lengthPrefixed, h]
  have henc : (onePicture 2 nal).body.Encodable 4 := by
    simp [onePicture, TagBody.Encodable, hne, h]
  have hmax : ¬10 + (4 + 2 ^ 23) ≤ maxFrame := by decide
  obtain ⟨d, hunit⟩ := nextUnit_tag hlen henc rfl []
  refine ⟨_, ⟨[], _, .single hunit⟩, ?_⟩
  simpa [startCode, nonEmpty, hne, h] using hmax

/-- The frame of a NAL unit of 8 MiB is written, and cannot be read. -/
theorem large_picture_unreadable :
    ¬∀ (stream : List UInt8) (H : HostState) (S : Serde) (addr : IpAddr) (evs : List Event)
      (t : Conn × List Effect), Run (Steps (Conn.trace H S addr)) ({}, []) evs t →
      (∀ au, .enqueue au ∈ evs → Yields stream au) → VideoReadable t.2 := by
  intro h
  have hlen : (List.replicate (2 ^ 23) (0x41 : UInt8)).length = 2 ^ 23 := List.length_replicate
  obtain ⟨au, hau, hlarge⟩ := onePicture_yields hlen
  exact hlarge (fits_of_readable hau (h _))

end DdrdeskHost
