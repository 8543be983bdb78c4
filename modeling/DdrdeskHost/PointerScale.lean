import DdrdeskHost.Cleanup

namespace DdrdeskHost
set_option autoImplicit true

section
variable (S : Serde)

/-- The viewport that a frame brings. -/
def viewportOf (f : Frame) : Option Viewport :=
  if f.1 = Proto.viewport then S.viewport f.2 else none

/-- Whether a frame that sets the pointer scale brings a viewport; a `UI_SCALE` does not. -/
def scaleSource (f : Frame) : Option Bool :=
  if f.1 = Proto.uiScale then (S.uiScale f.2).map fun _ => false
  else (viewportOf S f).map fun _ => true

/-- The scale for the latest viewport, or for the first one while there is no other. -/
def latestScale (s : Viewport × (Nat × Nat)) (fs : List Frame) : ℚ :=
  pointerScaleFor ((lastWrite (viewportOf S) fs).getD s.1) s.2.1 s.2.2

/-- The scale that the frames leave: a `UI_SCALE` goes back to the first viewport. -/
def scaleAfter (s : Viewport × (Nat × Nat)) (fs : List Frame) : ℚ :=
  if lastWrite (scaleSource S) fs = some false then pointerScaleFor s.1 s.2.1 s.2.2
  else latestScale S s fs

/-- The latest frame that set the scale brought a viewport, or there is none, or the session's
first viewport has the scale of the latest one. -/
def ScaleFollows (s : Viewport × (Nat × Nat)) (fs : List Frame) : Prop :=
  lastWrite (scaleSource S) fs ≠ some false ∨
    pointerScaleFor s.1 s.2.1 s.2.2 = latestScale S s fs

/-- What the log says of the session where it stands. -/
def Tuned (p : Phase) (es : List Effect) : Prop :=
  match p with
  | .sized vp enc | .greeted vp enc | .announced vp enc | .connected vp enc =>
    sessionOf es = some (vp, enc) ∧ dispatchedFrames es = []
  | .streaming l => sessionOf es = some (l.vp, l.enc) ∧
      l.pointerScale = scaleAfter S (l.vp, l.enc) (dispatchedFrames es)
  | .stopping | .restoring | .disconnecting | .finishing | .returned => True
  | _ => dispatchedFrames es = []

end

section
variable {H : HostState} {S : Serde} {addr : IpAddr}

theorem scaleAfter_eq_latest (s : Viewport × (Nat × Nat)) (fs : List Frame) :
    scaleAfter S s fs = latestScale S s fs ↔ ScaleFollows S s fs := by
  unfold scaleAfter ScaleFollows
  split
  · next h => simp [h]
  · next h => simp [h]

theorem scaleAfter_nil (S : Serde) (s : Viewport × (Nat × Nat)) :
    scaleAfter S s [] = pointerScaleFor s.1 s.2.1 s.2.2 := by
  simp [scaleAfter, latestScale]

theorem scaleSource_other (hu : f.1 = Proto.uiScale → S.uiScale f.2 = none)
    (hv : f.1 ≠ Proto.viewport) : scaleSource S f = none := by
  unfold scaleSource
  split
  · next h => rw [hu h, Option.map_none]
  · rw [viewportOf, if_neg hv, Option.map_none]

theorem scaleAfter_other (hu : f.1 = Proto.uiScale → S.uiScale f.2 = none)
    (hv : f.1 ≠ Proto.viewport) (s : Viewport × (Nat × Nat)) (fs : List Frame) :
    scaleAfter S s (fs ++ [f]) = scaleAfter S s fs := by
  have hvf : viewportOf S f = none := if_neg hv
  simp only [scaleAfter, latestScale, lastWrite_concat, scaleSource_other hu hv, hvf,
    Option.none_or]

theorem scaleAfter_uiScale (hf : f.1 = Proto.uiScale) (hs : S.uiScale f.2 = some u)
    (s : Viewport × (Nat × Nat)) (fs : List Frame) :
    scaleAfter S s (fs ++ [f]) = pointerScaleFor s.1 s.2.1 s.2.2 := by
  have hsrc : scaleSource S f = some false := by rw [scaleSource, if_pos hf, hs, Option.map_some]
  simp only [scaleAfter, lastWrite_concat, hsrc, Option.some_or, ↓reduceIte]

theorem scaleAfter_viewport (hf : f.1 = Proto.viewport) (hs : S.viewport f.2 = some vp)
    (s : Viewport × (Nat × Nat)) (fs : List Frame) :
    scaleAfter S s (fs ++ [f]) = pointerScaleFor vp s.2.1 s.2.2 := by
  have hvf : viewportOf S f = some vp := by rw [viewportOf, if_pos hf, hs]
  have hne : f.1 ≠ Proto.uiScale := by simp [hf, Proto.uiScale, Proto.viewport]
  have hsrc : scaleSource S f = some true := by
    rw [scaleSource, if_neg hne, hvf, Option.map_some]
  simp [scaleAfter, latestScale, lastWrite_concat, hsrc, hvf]

theorem dispatchedFrames_frame (h : dispatchedFrames es' = []) (es : List Effect) (f : Frame) :
    dispatchedFrames (es ++ .dispatched f :: es') = dispatchedFrames es ++ [f] := by
  rw [dispatchedFrames_append]
  exact congrArg (fun fs => dispatchedFrames es ++ f :: fs) h

theorem Tuned.frame (hs : sessionOf es = some (l.vp, l.enc))
    (hq : ∀ e ∈ es', Effect.session e = none) (hd : dispatchedFrames es' = [])
    (hp : l.pointerScale = scaleAfter S (l.vp, l.enc) (dispatchedFrames es ++ [f])) :
    Tuned S (.streaming l) (es ++ .dispatched f :: es') := by
  constructor
  · have hq' : ∀ e ∈ Effect.dispatched f :: es', e.session = none := by
      intro e he
      rcases List.mem_cons.1 he with rfl | he
      · rfl
      · exact hq e he
    exact (sessionOf_append hq' es).trans hs
  · rw [dispatchedFrames_frame hd]
    exact hp

/-- Every message leaves the loop with the scale that the frames so far call for. -/
theorem Tuned.dispatch (h : Tuned S (.streaming l) es) (hd : Dispatches S l f a p es') :
    Tuned S p (es ++ .dispatched f :: es') := by
  obtain ⟨hs, hp⟩ := h
  have hkeep (hu : f.1 = Proto.uiScale → S.uiScale f.2 = none) (hv : f.1 ≠ Proto.viewport) :
      l.pointerScale = scaleAfter S (l.vp, l.enc) (dispatchedFrames es ++ [f]) := by
    rw [scaleAfter_other hu hv]
    exact hp
  cases hd with
  | ignored hu hv => exact .frame hs (by simp) rfl (hkeep hu hv)
  | @uiScale s hf hs' =>
    have hscale := scaleAfter_uiScale hf hs' (l.vp, l.enc) (dispatchedFrames es)
    cases l.injector with
    | false => exact .frame hs (by simp [Effect.session]) rfl hscale.symm
    | true => exact .frame hs (by simp [Effect.session]) rfl hscale.symm
  | viewport hf hs' =>
    exact .frame hs (by simp) rfl
      (scaleAfter_viewport hf hs' (l.vp, l.enc) (dispatchedFrames es)).symm
  | input hf =>
    exact .frame hs (by simp [Effect.session]) rfl
      (hkeep (by simp [hf, Proto.input, Proto.uiScale]) (by simp [hf, Proto.input, Proto.viewport]))
  | pong hf =>
    exact .frame hs (by simp [Effect.session]) rfl
      (hkeep (by simp [hf, Proto.ping, Proto.uiScale]) (by simp [hf, Proto.ping, Proto.viewport]))
  | bitrateHint hf kbps =>
    exact .frame hs (by simp) rfl (hkeep (by simp [hf, Proto.bitrateHint, Proto.uiScale])
      (by simp [hf, Proto.bitrateHint, Proto.viewport]))
  | badViewport | pongFailed | goodbye => trivial

theorem Tuned.video (h : Tuned S (.streaming l) es) (queue : List NalUnit) (au : NalUnit)
    (a : Answer) :
    Tuned S (onVideo { l with queue := queue } au a).1
      (es ++ (onVideo { l with queue := queue } au a).2) := by
  rw [onVideo]
  split
  · constructor
    · exact (sessionOf_append (by simp [Effect.session]) es).trans h.1
    · rw [dispatchedFrames_append]
      simpa [dispatchedFrames] using h.2
  · trivial

theorem Tuned.next (h : Tuned S p es) (hn : Proceeds H S addr a p p' es') :
    Tuned S p' (es ++ es') := by
  have hkeep {s : Viewport × (Nat × Nat)} (hs : sessionOf es = some s ∧ dispatchedFrames es = [])
      (hq : ∀ e ∈ es', Effect.session e = none) (hd : dispatchedFrames es' = []) :
      sessionOf (es ++ es') = some s ∧ dispatchedFrames (es ++ es') = [] := by
    rw [sessionOf_append hq, dispatchedFrames_append, hs.2, hd]
    exact ⟨hs.1, rfl⟩
  cases hn with
  | limited error =>
    have hd : dispatchedFrames es = [] := h
    change dispatchedFrames (es ++ _) = []
    rw [dispatchedFrames_append, hd]
    rfl
  | sized =>
    have hd : dispatchedFrames es = [] := h
    constructor
    · exact lastWrite_concat _ _ _
    · rw [dispatchedFrames_append, hd]
      rfl
  | greeted hw => exact hkeep h (by simp [Effect.session]) rfl
  | announced hw => exact hkeep h (by simp [Effect.session]) rfl
  | connected => exact hkeep h (by simp [Effect.session]) rfl
  | streaming =>
    obtain ⟨hs, hd⟩ := hkeep h (by simp [Effect.session]) rfl
    constructor
    · exact hs
    · rw [hd, scaleAfter_nil]
      rfl
  | _ => trivial

theorem Tuned.step (h : Conn.trace H S addr t e = some t') (ht : Tuned S t.1.phase t.2) :
    Tuned S t'.1.phase t'.2 := by
  obtain ⟨⟨c', es⟩, hstep, he⟩ := Option.map_eq_some_iff.1 h
  cases he
  have hg := Conn.goes hstep
  generalize c'.phase = p at hg ⊢
  cases hg with
  | arrived | ended | pending =>
    rw [List.append_nil]
    exact ht
  | queued au hp =>
    rw [hp] at ht
    rw [List.append_nil]
    exact ht
  | @hello f rest a hp hf =>
    rw [hp] at ht
    rw [List.append_nil]
    rcases onHello_cases H S f with h | h | ⟨vp, h⟩
    · rw [h]
      trivial
    · rw [h]
      exact ht
    · rw [h]
      exact ht
  | frame a hp hf =>
    rw [hp] at ht
    exact ht.dispatch (dispatches S _ _ a)
  | gone | left => trivial
  | video a hp hq =>
    rw [hp] at ht
    exact ht.video _ _ a
  | next a hn => exact ht.next (proceeds hn)

theorem input_dispatch (hd : Dispatches S l f a p es) (hes : es₁ ++ .input ev ps :: es₂ = es) :
    f.1 = Proto.input ∧ ps = l.pointerScale ∧ es₁ = [] := by
  have hmem : .input ev ps ∈ es := hes ▸ List.mem_append_right _ List.mem_cons_self
  cases hd with
  | input hf =>
    cases es₁ with
    | nil =>
      cases hes
      exact ⟨hf, rfl, rfl⟩
    | cons x es₁ => simp at hes
  | uiScale => cases hi : l.injector <;> simp [hi] at hmem
  | _ => simp at hmem

theorem input_not_video (l : Loop) (au : NalUnit) (a : Answer) :
    .input ev ps ∉ (onVideo l au a).2 := by
  rw [onVideo]
  split <;> simp

theorem input_not_next (hn : Proceeds H S addr a p p' es) : .input ev ps ∉ es := by
  cases hn <;> simp

theorem input_scale (h : Run (Steps (Conn.trace H S addr)) ({}, []) evs t)
    (ht : t.2 = p ++ .input ev ps :: q) :
    ∃ s, sessionOf p = some s ∧ ps = scaleAfter S s (dispatchedFrames p) := by
  obtain ⟨evs₁, e, evs₂, r, es₁, c', es₂, -, hr, rfl, hstep⟩ := Conn.exists_made h ht
  have hstart : Tuned S ({} : Conn).phase [] := rfl
  have htuned : Tuned S r.1.phase r.2 :=
    hr.invariant (I := fun t => Tuned S t.1.phase t.2) (fun _ _ _ ht hst => ht.step hst) hstart
  have hg := Conn.goes hstep
  generalize c'.phase = p', hes : es₁ ++ Effect.input ev ps :: es₂ = es at hg
  cases hg with
  | arrived | ended | pending | queued | hello | gone | left => simp at hes
  | @frame l f _ a hp hf =>
    rw [hp] at htuned
    cases es₁ with
    | nil => simp at hes
    | cons x es₁ =>
      rw [List.cons_append] at hes
      obtain ⟨rfl, htail⟩ := List.cons_eq_cons.1 hes
      obtain ⟨hin, rfl, rfl⟩ := input_dispatch (dispatches S l f a) htail
      have hs : sessionOf (r.2 ++ [.dispatched f]) = some (l.vp, l.enc) :=
        (sessionOf_append (by simp [Effect.session]) r.2).trans htuned.1
      refine ⟨(l.vp, l.enc), hs, ?_⟩
      rw [dispatchedFrames_frame rfl, scaleAfter_other (by simp [hin, Proto.input, Proto.uiScale])
        (by simp [hin, Proto.input, Proto.viewport])]
      exact htuned.2
  | video a hp hq =>
    exact absurd (hes ▸ List.mem_append_right _ List.mem_cons_self) (input_not_video _ _ a)
  | next a hn =>
    exact absurd (hes ▸ List.mem_append_right _ List.mem_cons_self) (input_not_next (proceeds hn))

end

/-- The scale of every pointer motion is that for the latest viewport just where each motion comes
while the latest frame that set the scale was no `UI_SCALE`, or while that makes no difference. -/
theorem pointer_scale_follows_viewport (H : HostState) (S : Serde) (addr : IpAddr)
    (evs : List Event) (t : Conn × List Effect)
    (h : Run (Steps (Conn.trace H S addr)) ({}, []) evs t) :
    (∀ p dx dy ps q, t.2 = p ++ .input (.move dx dy) ps :: q →
      (sessionOf p).map (latestScale S · (dispatchedFrames p)) = some ps) ↔
    ∀ p dx dy ps q, t.2 = p ++ .input (.move dx dy) ps :: q →
      ∀ s ∈ sessionOf p, ScaleFollows S s (dispatchedFrames p) := by
  apply forall_congr'
  intro p
  apply forall_congr'
  intro dx
  apply forall_congr'
  intro dy
  apply forall_congr'
  intro ps
  apply forall_congr'
  intro q
  apply forall_congr'
  intro ht
  obtain ⟨s, hs, hps⟩ := input_scale h ht
  rw [hs, hps, Option.map_some, Option.some.injEq, eq_comm, scaleAfter_eq_latest]
  simp

/-- A JSON library that reads a portrait viewport, a UI scale and a motion. -/
def phoneSerde : Serde :=
  { sampleSerde with
    viewport := fun _ => some ⟨1179, 2556, 393, 852, 3, "portrait"⟩
    uiScale := fun _ => some ⟨3 / 2⟩
    inputEvent := fun _ => some (.move 1 1) }

/-- A session in which the client then sends these frames. -/
def phoneSession (fs : List Frame) : List Event :=
  connected ++ .arrive (writeFrames fs) :: fs.map fun _ => .read {}

/-- The log of a session that is not told of any other viewport before its frames. -/
def phoneLog (es : List Effect) : List Effect :=
  [.applyViewport ⟨2556, 1179, 852, 393, 3, "landscape"⟩ (1280, 800),
    .wrote Proto.serverHello [] .done, .wrote Proto.status [] .done, .clientConnected,
    .captureStart 1280 800 true] ++ es

/-- The phone turns to portrait and then asks for a UI scale; a motion has the landscape scale. -/
theorem pointer_scale_goes_back :
    ¬∀ (H : HostState) (S : Serde) (addr : IpAddr) (evs : List Event) (t : Conn × List Effect),
      Run (Steps (Conn.trace H S addr)) ({}, []) evs t →
        ∀ p dx dy ps q, t.2 = p ++ .input (.move dx dy) ps :: q →
          (sessionOf p).map (latestScale S · (dispatchedFrames p)) = some ps := by
  intro h
  have hrun : ((phoneSession [(Proto.viewport, []), (Proto.uiScale, []),
      (Proto.input, [])]).foldlM (Conn.trace sampleHost phoneSerde (.v4 0)) ({}, [])).map
        (fun t => t.2) =
      some (phoneLog [.dispatched (Proto.viewport, []), .dispatched (Proto.uiScale, []),
        .applyUiScale (3 / 2), .setScreen 1920 1200, .dispatched (Proto.input, [])] ++
          [.input (.move 1 1) (320 / 213)]) := by decide +kernel
  obtain ⟨t, ht, hlog⟩ := Option.map_eq_some_iff.1 hrun
  have hscale := h sampleHost phoneSerde (.v4 0) _ t (run_steps_iff.2 ht) _ 1 1 _ [] hlog
  exact absurd hscale (by decide +kernel)

/-- Without a UI scale, the motion has the portrait scale. -/
theorem pointer_scale_follows_viewport_portrait :
    ∃ t p, Run (Steps (Conn.trace sampleHost phoneSerde (.v4 0))) ({}, [])
      (phoneSession [(Proto.viewport, []), (Proto.input, [])]) t ∧
        t.2 = p ++ [.input (.move 1 1) (1280 / 393)] ∧
          (sessionOf p).map (latestScale phoneSerde · (dispatchedFrames p)) =
            some (1280 / 393) := by
  have hrun : ((phoneSession [(Proto.viewport, []), (Proto.input, [])]).foldlM
      (Conn.trace sampleHost phoneSerde (.v4 0)) ({}, [])).map (fun t => t.2) =
      some (phoneLog [.dispatched (Proto.viewport, []), .dispatched (Proto.input, [])] ++
        [.input (.move 1 1) (1280 / 393)]) := by decide +kernel
  obtain ⟨t, ht, hlog⟩ := Option.map_eq_some_iff.1 hrun
  have hrun := run_steps_iff.2 ht
  refine ⟨t, _, hrun, hlog, (pointer_scale_follows_viewport sampleHost phoneSerde (.v4 0) _ t
    hrun).2 ?_ _ 1 1 _ [] hlog⟩
  intro p dx dy ps q hp s _
  apply Or.inl
  intro hlast
  obtain ⟨f, hf, hsource⟩ := exists_of_lastWrite hlast
  have hmem : f ∈ dispatchedFrames t.2 := by
    rw [hp, dispatchedFrames_append]
    exact List.mem_append_left _ hf
  have hframes : dispatchedFrames t.2 = [(Proto.viewport, []), (Proto.input, [])] := by
    rw [hlog]
    rfl
  have hnone : ∀ f ∈ [(Proto.viewport, []), (Proto.input, [])],
      scaleSource phoneSerde f ≠ some false := by decide +kernel
  rw [hframes] at hmem
  exact hnone f hmem hsource

end DdrdeskHost
