import DdrdeskHost.HeldKeys
import DdrdeskHost.Mouse
import DdrdeskHost.PointerScale

namespace DdrdeskHost
set_option autoImplicit true

/-- The input events that are injected, each with its scale. -/
def inputs (es : List Effect) : List (InputEvent × ℚ) :=
  es.filterMap fun
    | .input ev ps => some (ev, ps)
    | _ => none

/-- The input event that a frame brings, with the scale in force. -/
def inputOf (S : Serde) (ps : ℚ) (f : Frame) : Option (InputEvent × ℚ) :=
  if f.1 = Proto.input then (S.inputEvent f.2).map fun ev => (ev, ps) else none

/-- The input events that frames bring to a session that has had others before. -/
def inputsFrom (S : Serde) (s : Viewport × (Nat × Nat)) :
    List Frame → List Frame → List (InputEvent × ℚ)
  | _, [] => []
  | seen, f :: fs => (inputOf S (scaleAfter S s seen) f).toList ++ inputsFrom S s (seen ++ [f]) fs

def inputsOf (S : Serde) (s : Viewport × (Nat × Nat)) (fs : List Frame) :
    List (InputEvent × ℚ) := inputsFrom S s [] fs

/-- What the frames that are dispatched bring to the injector; without one it is nothing. -/
def Loop.brings (S : Serde) (l : Loop) (es : List Effect) : List (InputEvent × ℚ) :=
  if l.injector then inputsOf S (l.vp, l.enc) (dispatchedFrames es) else []

/-- The session has come to its loop, with these data. -/
def Streams (H : HostState) (S : Serde) (addr : IpAddr) (evs : List Event) (l : Loop) : Prop :=
  ∃ p q t, evs = p ++ q ∧ Run (Steps (Conn.trace H S addr)) ({}, []) p t ∧
    t.1.phase = .streaming l

/-- The session has not come to its loop: no frame has been dispatched there, and nothing
injected. -/
def Unplayed (H : HostState) (S : Serde) (addr : IpAddr) (evs : List Event)
    (es : List Effect) : Prop :=
  (∀ l, ¬Streams H S addr evs l) ∧ inputs es = [] ∧ dispatchedFrames es = []

/-- All that the dispatched frames bring has been injected, if the session came to its loop. -/
def Injected (H : HostState) (S : Serde) (addr : IpAddr) (evs : List Event)
    (es : List Effect) : Prop :=
  (∃ l, Streams H S addr evs l ∧ inputs es = l.brings S es) ∨ Unplayed H S addr evs es

/-- What has been injected where the session stands. -/
def Played (H : HostState) (S : Serde) (addr : IpAddr) (evs : List Event) (es : List Effect) :
    Phase → Prop
  | .streaming l => inputs es = l.brings S es
  | .stopping | .restoring | .disconnecting | .finishing | .returned => Injected H S addr evs es
  | _ => Unplayed H S addr evs es

section
variable {S : Serde} {s : Viewport × (Nat × Nat)} {l : Loop}

theorem inputs_append (es es' : List Effect) : inputs (es ++ es') = inputs es ++ inputs es' :=
  List.filterMap_append

theorem inputsFrom_concat (seen fs : List Frame) (f : Frame) :
    inputsFrom S s seen (fs ++ [f]) =
      inputsFrom S s seen fs ++ (inputOf S (scaleAfter S s (seen ++ fs)) f).toList := by
  induction fs generalizing seen with
  | nil => simp [inputsFrom]
  | cons g fs ih =>
    simp only [List.cons_append, inputsFrom, ih, List.append_assoc, List.nil_append]

theorem inputsOf_concat (fs : List Frame) (f : Frame) :
    inputsOf S s (fs ++ [f]) = inputsOf S s fs ++ (inputOf S (scaleAfter S s fs) f).toList :=
  inputsFrom_concat [] fs f

theorem dispatch_inputs (S : Serde) (l : Loop) (f : Frame) (a : Answer) :
    inputs (dispatch S l f a).2 =
      if l.injector then (inputOf S l.pointerScale f).toList else [] := by
  by_cases hin : f.1 = Proto.input
  · simp only [dispatch, hin, inputOf, ↓reduceIte]
    cases S.inputEvent f.2 with
    | none => cases l.injector <;> rfl
    | some ev => cases l.injector <;> rfl
  · have hnone : inputOf S l.pointerScale f = none := if_neg hin
    rw [hnone, Option.toList_none, ite_self]
    have hd := dispatches S l f a
    generalize (dispatch S l f a).1 = p, (dispatch S l f a).2 = es at hd
    cases hd with
    | input hf => exact absurd hf hin
    | uiScale => cases l.injector <;> rfl
    | _ => rfl

theorem dispatch_phase (S : Serde) (l : Loop) (f : Frame) (a : Answer) :
    (∃ l', (dispatch S l f a).1 = .streaming l' ∧ l'.vp = l.vp ∧ l'.enc = l.enc ∧
        l'.injector = l.injector) ∨
      (dispatch S l f a).1 = .stopping ∨ (dispatch S l f a).1 = .returned := by
  have hd := dispatches S l f a
  generalize (dispatch S l f a).1 = p, (dispatch S l f a).2 = es at hd ⊢
  cases hd with
  | goodbye => exact .inr (.inl rfl)
  | badViewport | pongFailed => exact .inr (.inr rfl)
  | _ => exact .inl ⟨_, rfl, rfl, rfl, rfl⟩

theorem dispatch_quiet (S : Serde) (l : Loop) (f : Frame) (a : Answer) :
    dispatchedFrames (dispatch S l f a).2 = [] := by
  have hd := dispatches S l f a
  generalize (dispatch S l f a).1 = p, (dispatch S l f a).2 = es at hd ⊢
  cases hd with
  | uiScale => cases l.injector <;> simp [dispatchedFrames]
  | _ => simp [dispatchedFrames]

theorem Loop.brings_append (S : Serde) (l : Loop) (hd : dispatchedFrames es' = []) :
    l.brings S (es ++ es') = l.brings S es := by
  rw [brings, brings, dispatchedFrames_append, hd, List.append_nil]

theorem brings_dispatch (h : inputs es = l.brings S es)
    (hscale : l.pointerScale = scaleAfter S (l.vp, l.enc) (dispatchedFrames es))
    (f : Frame) (a : Answer) : inputs (es ++ .dispatched f :: (dispatch S l f a).2) =
      l.brings S (es ++ .dispatched f :: (dispatch S l f a).2) := by
  have hcons : inputs (.dispatched f :: (dispatch S l f a).2) = inputs (dispatch S l f a).2 := rfl
  rw [Loop.brings] at h ⊢
  rw [inputs_append, hcons, dispatch_inputs, h, dispatchedFrames_frame (dispatch_quiet S l f a),
    inputsOf_concat, hscale]
  cases l.injector <;> rfl

end

section
variable {H : HostState} {S : Serde} {addr : IpAddr} {evs : List Event} {e : Event}
  {t t' : Conn × List Effect} {p : Phase} {es es' : List Effect}

theorem streams_here (hr : Run (Steps (Conn.trace H S addr)) ({}, []) evs t)
    (hs : t.1.phase = .streaming l) : Streams H S addr evs l :=
  ⟨evs, [], t, (List.append_nil evs).symm, hr, hs⟩

theorem Streams.append (h : Streams H S addr evs l) (evs' : List Event) :
    Streams H S addr (evs ++ evs') l := by
  obtain ⟨p, q, t, rfl, hr, hs⟩ := h
  exact ⟨p, q ++ evs', t, List.append_assoc p q evs', hr, hs⟩

theorem not_streams_append (hr : Run (Steps (Conn.trace H S addr)) ({}, []) (evs ++ [e]) t')
    (hp : ∀ l, t'.1.phase ≠ .streaming l) (hn : ∀ l, ¬Streams H S addr evs l) (l : Loop) :
    ¬Streams H S addr (evs ++ [e]) l := by
  rintro ⟨p, q, u, hq, hu, hs⟩
  rcases List.eq_nil_or_concat q with rfl | ⟨q, x, rfl⟩
  · rw [List.append_nil] at hq
    rw [← hq] at hu
    rw [run_steps_unique hu hr] at hs
    exact hp l hs
  · rw [List.concat_eq_append, ← List.append_assoc] at hq
    exact hn l ⟨p, q, u, (List.append_inj' hq rfl).1, hu, hs⟩

theorem Unplayed.quiet (h : Unplayed H S addr evs es)
    (hn : (∀ l, ¬Streams H S addr evs l) → ∀ l, ¬Streams H S addr (evs ++ [e]) l)
    (hi : inputs es' = []) (hd : dispatchedFrames es' = []) :
    Unplayed H S addr (evs ++ [e]) (es ++ es') := by
  rw [Unplayed, inputs_append, hi, List.append_nil, dispatchedFrames_append, hd, List.append_nil]
  exact ⟨hn h.1, h.2⟩

theorem Injected.quiet (h : Injected H S addr evs es)
    (hn : (∀ l, ¬Streams H S addr evs l) → ∀ l, ¬Streams H S addr (evs ++ [e]) l)
    (hi : inputs es' = []) (hd : dispatchedFrames es' = []) :
    Injected H S addr (evs ++ [e]) (es ++ es') := by
  rcases h with ⟨l, hl, hin⟩ | h
  · refine .inl ⟨l, hl.append [e], ?_⟩
    rw [inputs_append, hi, List.append_nil, l.brings_append S hd]
    exact hin
  · exact .inr (h.quiet hn hi hd)

theorem Played.keep (h : Played H S addr evs es p)
    (hn : (∀ l, p ≠ .streaming l) →
      (∀ l, ¬Streams H S addr evs l) → ∀ l, ¬Streams H S addr (evs ++ [e]) l) :
    Played H S addr (evs ++ [e]) es p := by
  cases p with
  | streaming l => exact h
  | stopping | restoring | disconnecting | finishing | returned =>
    have hquiet : Injected H S addr (evs ++ [e]) (es ++ []) :=
      Injected.quiet h (hn (by simp)) rfl rfl
    rwa [List.append_nil] at hquiet
  | _ =>
    have hquiet : Unplayed H S addr (evs ++ [e]) (es ++ []) :=
      Unplayed.quiet h (hn (by simp)) rfl rfl
    rwa [List.append_nil] at hquiet

theorem Played.dispatch (hl : Streams H S addr evs l) (h : Played H S addr evs es (.streaming l))
    (ht : Tuned S (.streaming l) es) (f : Frame) (a : Answer) :
    Played H S addr evs (es ++ .dispatched f :: (dispatch S l f a).2) (dispatch S l f a).1 := by
  have hplayed := brings_dispatch h ht.2 f a
  rcases dispatch_phase S l f a with ⟨l', hp, hvp, henc, hinj⟩ | hp | hp
  · rw [hp, Played, Loop.brings, hvp, henc, hinj]
    exact hplayed
  · rw [hp]
    exact .inl ⟨l, hl, hplayed⟩
  · rw [hp]
    exact .inl ⟨l, hl, hplayed⟩

theorem Played.video (hl : Streams H S addr evs l) (h : Played H S addr evs es (.streaming l))
    (queue : List NalUnit) (au : NalUnit) (a : Answer) :
    Played H S addr evs (es ++ (onVideo { l with queue := queue } au a).2)
      (onVideo { l with queue := queue } au a).1 := by
  have hquiet (payload : List UInt8) (w : Write) :
      inputs (es ++ [.wrote Proto.video payload w]) =
        l.brings S (es ++ [.wrote Proto.video payload w]) := by
    rw [inputs_append, l.brings_append S rfl]
    exact (List.append_nil _).trans h
  rw [onVideo]
  cases a.write with
  | done => exact hquiet _ _
  | failed n => exact .inl ⟨l, hl, hquiet _ _⟩

theorem Played.next (h : Played H S addr evs es p)
    (hn : (∀ l, p' ≠ .streaming l) →
      (∀ l, ¬Streams H S addr evs l) → ∀ l, ¬Streams H S addr (evs ++ [e]) l)
    (hp : Proceeds H S addr a p p' es') : Played H S addr (evs ++ [e]) (es ++ es') p' := by
  cases hp with
  | stopped | restored | disconnected | finished =>
    exact Injected.quiet h (hn (by simp)) rfl rfl
  | streaming =>
    obtain ⟨-, hin, hframes⟩ := h
    rw [Played, inputs_append, hin, Loop.brings_append S _ rfl, Loop.brings, hframes]
    exact (ite_self _).symm
  | refused | notGreeted | notAnnounced | notStreaming =>
    exact .inr (Unplayed.quiet h (hn (by simp)) rfl rfl)
  | _ => exact Unplayed.quiet h (hn (by simp)) rfl rfl

theorem Played.step (hr : Run (Steps (Conn.trace H S addr)) ({}, []) evs t)
    (h : Conn.trace H S addr t e = some t') (ht : Tuned S t.1.phase t.2)
    (hp : Played H S addr evs t.2 t.1.phase) :
    Played H S addr (evs ++ [e]) t'.2 t'.1.phase := by
  have hn := not_streams_append (hr.append (.single h))
  obtain ⟨⟨c', es⟩, hstep, he⟩ := Option.map_eq_some_iff.1 h
  cases he
  have hg := Conn.goes hstep
  generalize c'.phase = p at hg hn ⊢
  have hmono : (∀ l, p ≠ .streaming l) →
      (∀ l, ¬Streams H S addr evs l) → ∀ l, ¬Streams H S addr (evs ++ [e]) l := hn
  cases hg with
  | arrived | ended | pending =>
    rw [List.append_nil]
    exact hp.keep hmono
  | queued au hs =>
    rw [hs] at hp
    rw [List.append_nil]
    exact hp
  | @hello f rest a hs hf =>
    rw [hs] at hp
    rcases onHello_cases H S f with h | h | ⟨vp, h⟩
    · rw [h] at hmono ⊢
      exact .inr (Unplayed.quiet hp (hmono (by simp)) rfl rfl)
    · rw [h] at hmono ⊢
      exact Unplayed.quiet hp (hmono (by simp)) rfl rfl
    · rw [h] at hmono ⊢
      exact Unplayed.quiet hp (hmono (by simp)) rfl rfl
  | @frame l f rest a hs hf =>
    have hl := (streams_here hr hs).append [.read a]
    rw [hs] at hp ht
    exact Played.dispatch hl hp ht f a
  | gone a hs =>
    rw [hs] at hp
    exact .inr (Unplayed.quiet hp (hmono (by simp)) rfl rfl)
  | left a hs =>
    have hl := (streams_here hr hs).append [.read a]
    rw [hs] at hp
    rw [List.append_nil]
    exact .inl ⟨_, hl, hp⟩
  | video a hs hq =>
    have hl := (streams_here hr hs).append [.recv a]
    rw [hs] at hp
    exact Played.video hl hp _ _ a
  | next a hx => exact hp.next hmono (proceeds hx)

/-- Wherever the session stands, it has injected just what its frames bring. -/
theorem injected_run (h : Run (Steps (Conn.trace H S addr)) ({}, []) evs t) :
    Injected H S addr evs t.2 := by
  have hnone : ∀ l, ¬Streams H S addr [] l := by
    rintro l ⟨p, q, u, hq, hu, hs⟩
    obtain ⟨rfl, -⟩ := List.append_eq_nil_iff.1 hq.symm
    cases hu
    cases hs
  obtain ⟨hr, ht, hp⟩ := h.invariant_trace (p := [])
    (I := fun evs t => Run (Steps (Conn.trace H S addr)) ({}, []) evs t ∧
      Tuned S t.1.phase t.2 ∧ Played H S addr evs t.2 t.1.phase)
    (fun _ _ _ _ ht hst => ⟨ht.1.append (.single hst), ht.2.1.step hst,
      Played.step ht.1 hst ht.2.1 ht.2.2⟩)
    ⟨.nil _, rfl, hnone, rfl, rfl⟩
  rw [List.nil_append] at hp
  cases hq : t.1.phase with
  | streaming l =>
    rw [hq] at hp
    exact .inl ⟨l, streams_here h hq, hp⟩
  | stopping | restoring | disconnecting | finishing | returned =>
    rw [hq] at hp
    exact hp
  | _ =>
    rw [hq] at hp
    exact .inr hp

end

/-- The virtual devices of a session, with all that they were given. -/
structure Devices where
  pointer : Pointer
  mouse : List MouseEvent := []
  keyboard : List KeyEvent := []
  deriving DecidableEq

/-- What a call does to the devices; `none` is a panic. A size of the screen is cast to `i32`. -/
def Devices.call (checks : Bool) (D : Devices) : Effect → Option Devices
  | .input ev ps => (applyInput checks D.pointer ev ps).map fun r =>
    { pointer := r.1, mouse := D.mouse ++ r.2, keyboard := D.keyboard ++ keyboardEvents ev }
  | .setScreen w h =>
    some { D with pointer := { D.pointer with screenW := .ofNat w, screenH := .ofNat h } }
  | _ => some D

/-- What an event makes of the buttons that are held down. -/
def MouseEvent.hold (held : Finset Key) : MouseEvent → Finset Key
  | .key k true => insert k held
  | .key k false => held.erase k
  | .rel _ _ | .syn => held

def heldButtons (evs : List MouseEvent) : Finset Key := evs.foldl MouseEvent.hold ∅

/-- The button that a name stands for; one that is not known is the left one. -/
def namedButton (which : String) : Key :=
  if which = "right" then .btnRight else if which = "middle" then .btnMiddle else .btnLeft

/-- What an input event says of a button. -/
def btnWrite (k : Key) : InputEvent → Option Bool
  | .btn b d => if namedButton b = k then some d else none
  | _ => none

/-- How far the mouse has gone along an axis. -/
def travelled (axis : RelativeAxisType) (evs : List MouseEvent) : ℤ :=
  (evs.map fun
    | .rel a v => if a = axis then v.toInt else 0
    | _ => 0).sum

/-- How far a motion is to go along an axis. -/
def distance (axis : RelativeAxisType) : InputEvent × ℚ → Option ℚ
  | (.move dx dy, ps) =>
    match axis with
    | .relX => some (dx * ps)
    | .relY => some (dy * ps)
    | _ => none
  | _ => none

section
variable {checks : Bool} {D D' : Devices} {evs : List MouseEvent}

theorem button_eq (which : String) (down : Bool) :
    Injector.button which down = [.key (namedButton which) down, .syn] := by
  unfold Injector.button namedButton
  split
  · rfl
  · rfl
  · rfl
  · next hl hr hm => rw [if_neg hr, if_neg hm]

theorem travelled_append (axis : RelativeAxisType) (evs evs' : List MouseEvent) :
    travelled axis (evs ++ evs') = travelled axis evs + travelled axis evs' := by
  rw [travelled, List.map_append, List.sum_append]
  rfl

theorem roundI32_error {q : ℚ} (h : |q| ≤ 2147483647) : |((roundI32 q).toInt : ℚ) - q| ≤ 1 / 2 := by
  obtain ⟨n, hn⟩ : ∃ n : ℤ, n = if 0 ≤ q then ⌊q + 1 / 2⌋ else ⌈q - 1 / 2⌉ := ⟨_, rfl⟩
  have hnear : |(n : ℚ) - q| ≤ 1 / 2 := by
    rw [hn, abs_le]
    split
    · have hle := Int.floor_le (q + 1 / 2)
      have hlt := Int.lt_floor_add_one (q + 1 / 2)
      constructor <;> linarith
    · have hle := Int.le_ceil (q - 1 / 2)
      have hlt := Int.ceil_lt_add_one (q - 1 / 2)
      constructor <;> linarith
  obtain ⟨hlo, hhi⟩ := abs_le.1 h
  obtain ⟨hlo', hhi'⟩ := abs_le.1 hnear
  have hmin : (-2147483648 : ℚ) ≤ n := by linarith
  have hmax : (n : ℚ) < 2147483648 := by linarith
  have hmin : -2147483648 ≤ n := by exact_mod_cast hmin
  have hmax : n < 2147483648 := by exact_mod_cast hmax
  rw [roundI32, ← hn, Int32.toInt_ofIntClamp hmin (Int.le_of_lt_add_one hmax)]
  exact hnear

theorem travelled_moveRel (h : Injector.moveRel checks p dx dy = some (p', evs)) :
    travelled .relX evs = dx.toInt ∧ travelled .relY evs = dy.toInt := by
  by_cases hstill : dx = 0 ∧ dy = 0
  · obtain ⟨rfl, rfl⟩ := hstill
    cases (Injector.moveRel_still checks p).symm.trans h
    exact ⟨rfl, rfl⟩
  · obtain ⟨-, -, -, rfl⟩ := (Injector.moveRel_eq_some hstill).1 h
    have hzero : (0 : Int32).toInt = 0 := rfl
    by_cases hx : dx = 0
    · by_cases hy : dy = 0
      · exact absurd ⟨hx, hy⟩ hstill
      · simp [travelled, hx, hy, hzero]
    · by_cases hy : dy = 0
      · simp [travelled, hx, hy, hzero]
      · simp [travelled, hx, hy]

theorem wheelAxis_rel (h : Injector.wheelAxis checks hiRes axis d = some evs) :
    ∀ e ∈ evs, ∃ a v, e = .rel a v ∧ (a = hiRes ∨ a = axis) := by
  unfold Injector.wheelAxis at h
  split at h
  · cases h
    simp
  · obtain ⟨v, -, rfl⟩ := Option.map_eq_some_iff.1 h
    intro e he
    rcases List.mem_cons.1 he with rfl | he
    · exact ⟨hiRes, v, rfl, .inl rfl⟩
    · rw [List.mem_singleton.1 he]
      exact ⟨axis, d, rfl, .inr rfl⟩

theorem wheel_still (h : Injector.wheel checks dx dy = some evs) :
    ∀ e ∈ evs, e = .syn ∨ ∃ a v, e = .rel a v ∧ a ≠ .relX ∧ a ≠ .relY := by
  obtain ⟨vertical, hv, h⟩ := Option.bind_eq_some_iff.1 h
  obtain ⟨horizontal, hh, h⟩ := Option.bind_eq_some_iff.1 h
  have hboth : ∀ e ∈ vertical ++ horizontal, ∃ a v, e = .rel a v ∧ a ≠ .relX ∧ a ≠ .relY := by
    intro e he
    rcases List.mem_append.1 he with he | he
    · obtain ⟨a, v, rfl, rfl | rfl⟩ := wheelAxis_rel hv e he
      · exact ⟨_, v, rfl, by simp⟩
      · exact ⟨_, v, rfl, by simp⟩
    · obtain ⟨a, v, rfl, rfl | rfl⟩ := wheelAxis_rel hh e he
      · exact ⟨_, v, rfl, by simp⟩
      · exact ⟨_, v, rfl, by simp⟩
  injection h with h
  intro e he
  rw [← h] at he
  split at he
  · cases he
  · rcases List.mem_append.1 he with he | he
    · exact .inr (hboth e he)
    · exact .inl (List.mem_singleton.1 he)

theorem travelled_eq_zero {axis : RelativeAxisType}
    (h : ∀ e ∈ evs, ∀ v, e ≠ MouseEvent.rel axis v) : travelled axis evs = 0 := by
  apply List.sum_eq_zero
  intro n hn
  obtain ⟨e, he, rfl⟩ := List.mem_map.1 hn
  cases e with
  | rel a v =>
    have ha : a ≠ axis := by
      rintro rfl
      exact h _ he v rfl
    exact if_neg ha
  | key | syn => rfl

theorem hold_still (h : ∀ e ∈ evs, ∀ k d, e ≠ MouseEvent.key k d) (held : Finset Key) :
    evs.foldl MouseEvent.hold held = held := by
  induction evs with
  | nil => rfl
  | cons e evs ih =>
    obtain ⟨he, hevs⟩ := List.forall_mem_cons.1 h
    cases e with
    | key k d => exact absurd rfl (he k d)
    | rel | syn => exact ih hevs

theorem moveRel_no_button (h : Injector.moveRel checks p dx dy = some (p', evs)) :
    ∀ e ∈ evs, ∀ k d, e ≠ MouseEvent.key k d := by
  by_cases hstill : dx = 0 ∧ dy = 0
  · obtain ⟨rfl, rfl⟩ := hstill
    cases (Injector.moveRel_still checks p).symm.trans h
    simp
  · obtain ⟨-, -, -, rfl⟩ := (Injector.moveRel_eq_some hstill).1 h
    by_cases hx : dx = 0 <;> by_cases hy : dy = 0 <;> simp [hx, hy]

theorem applyInput_mouse (h : applyInput checks p ev ps = some (p', evs)) :
    (∀ axis, axis = .relX ∨ axis = .relY → travelled axis evs =
      ((distance axis (ev, ps)).map fun q => (roundI32 q).toInt).getD 0) ∧
    ∀ k held, decide (k ∈ evs.foldl MouseEvent.hold held) =
      (btnWrite k ev).getD (decide (k ∈ held)) := by
  cases ev with
  | move dx dy =>
    obtain ⟨hx, hy⟩ := travelled_moveRel h
    constructor
    · rintro axis (rfl | rfl)
      · exact hx
      · exact hy
    · intro k held
      rw [hold_still (moveRel_no_button h)]
      rfl
  | btn b d =>
    cases h
    rw [button_eq]
    constructor
    · rintro axis (rfl | rfl)
      · rfl
      · rfl
    · intro k held
      by_cases hk : namedButton b = k
      · cases d <;> simp [MouseEvent.hold, btnWrite, hk]
      · cases d <;> simp [MouseEvent.hold, btnWrite, hk, Ne.symm hk]
  | wheel dx dy =>
    obtain ⟨evs', hw, he⟩ := Option.map_eq_some_iff.1 h
    cases he
    have hstill := wheel_still hw
    constructor
    · rintro axis haxis
      have hnone : distance axis (.wheel dx dy, ps) = none := rfl
      rw [hnone]
      apply travelled_eq_zero
      rintro e he v rfl
      rcases hstill _ he with h | ⟨a, v', h, hx, hy⟩
      · cases h
      · cases h
        exact haxis.elim hx hy
    · intro k held
      rw [hold_still]
      · rfl
      · rintro e he k d rfl
        rcases hstill _ he with h | ⟨a, v, h, -⟩
        · cases h
        · cases h
  | key | text =>
    cases h
    exact ⟨by rintro axis (rfl | rfl) <;> rfl, fun k held => rfl⟩

theorem Devices.call_eq (h : D.call checks e = some D') :
    ∃ evs, D'.mouse = D.mouse ++ evs ∧
      D'.keyboard = D.keyboard ++ (inputs [e]).flatMap (fun x => keyboardEvents x.1) ∧
      (∀ axis, axis = .relX ∨ axis = .relY → travelled axis evs =
        (((inputs [e]).filterMap (distance axis)).map fun q => (roundI32 q).toInt).sum) ∧
      ∀ k held, decide (k ∈ evs.foldl MouseEvent.hold held) =
        (lastWrite (btnWrite k) ((inputs [e]).map Prod.fst)).getD (decide (k ∈ held)) := by
  cases e with
  | input ev ps =>
    obtain ⟨⟨p', evs⟩, he, rfl⟩ := Option.map_eq_some_iff.1 h
    obtain ⟨hdist, hheld⟩ := applyInput_mouse he
    have hin : inputs [.input ev ps] = [(ev, ps)] := rfl
    refine ⟨evs, rfl, ?_, ?_, ?_⟩
    · rw [hin, List.flatMap_singleton]
    · intro axis haxis
      rw [hdist axis haxis, hin]
      cases hd : distance axis (ev, ps) <;> simp [hd]
    · intro k held
      rw [hheld, hin, List.map_singleton, lastWrite_singleton]
  | _ =>
    cases h
    refine ⟨[], (List.append_nil _).symm, (List.append_nil _).symm, fun _ _ => rfl, fun _ _ => rfl⟩

theorem Devices.calls_eq {es : List Effect} (h : es.foldlM (Devices.call checks) D = some D') :
    ∃ evs, D'.mouse = D.mouse ++ evs ∧
      D'.keyboard = D.keyboard ++ (inputs es).flatMap (fun x => keyboardEvents x.1) ∧
      (∀ axis, axis = .relX ∨ axis = .relY → travelled axis evs =
        (((inputs es).filterMap (distance axis)).map fun q => (roundI32 q).toInt).sum) ∧
      ∀ k held, decide (k ∈ evs.foldl MouseEvent.hold held) =
        (lastWrite (btnWrite k) ((inputs es).map Prod.fst)).getD (decide (k ∈ held)) := by
  induction es generalizing D with
  | nil =>
    cases h
    exact ⟨[], (List.append_nil _).symm, (List.append_nil _).symm, fun _ _ => rfl, fun _ _ => rfl⟩
  | cons e es ih =>
    obtain ⟨D₁, h₁, h⟩ := Option.bind_eq_some_iff.1 (List.foldlM_cons.symm.trans h)
    obtain ⟨evs₁, hm₁, hk₁, ht₁, hh₁⟩ := Devices.call_eq h₁
    obtain ⟨evs₂, hm₂, hk₂, ht₂, hh₂⟩ := ih h
    have hsplit : inputs (e :: es) = inputs [e] ++ inputs es := inputs_append [e] es
    refine ⟨evs₁ ++ evs₂, ?_, ?_, ?_, ?_⟩
    · rw [hm₂, hm₁, List.append_assoc]
    · rw [hk₂, hk₁, hsplit, List.flatMap_append, List.append_assoc]
    · intro axis haxis
      rw [travelled_append, ht₁ axis haxis, ht₂ axis haxis, hsplit, List.filterMap_append,
        List.map_append, List.sum_append]
    · intro k held
      rw [List.foldl_append, hh₂, hh₁, hsplit, List.map_append, lastWrite_append]
      cases lastWrite (btnWrite k) ((inputs es).map Prod.fst) <;> rfl

theorem sum_rounded_le {qs : List ℚ} (h : ∀ q ∈ qs, |q| ≤ 2147483647) :
    |((qs.map fun q => (roundI32 q).toInt).sum : ℚ) - qs.sum| ≤ qs.length / 2 := by
  induction qs with
  | nil => simp
  | cons q qs ih =>
    obtain ⟨hq, hqs⟩ := List.forall_mem_cons.1 h
    obtain ⟨hlo, hhi⟩ := abs_le.1 (roundI32_error hq)
    obtain ⟨hlo', hhi'⟩ := abs_le.1 (ih hqs)
    rw [List.map_cons, List.sum_cons, List.sum_cons, List.length_cons, abs_le]
    push_cast at hlo' hhi' ⊢
    constructor <;> linarith

end

/-- Among any sessions, each one's devices are given what its frames bring and nothing else: the
keyboard all of it in order, the mouse the buttons that were pressed last, and the mouse comes to
where the motions add up to, give or take half a unit for each of them. -/
theorem devices_follow_client {ι : Type*} [DecidableEq ι] (K : Kscreen W) (H : HostState)
    (S : Serde) (addr : ι → IpAddr) (d : Display W) (es : List (HostEvent ι W))
    (t : ((ι → IpAddr × Conn) × Shared W) × List (ι × Effect))
    (h : Run (Steps (hostTrace K H S)) (hostStart addr d, []) es t) (i : ι) (checks : Bool)
    (D D' : Devices) (hm : D.mouse = []) (hk : D.keyboard = [])
    (hD : (callsBy i t.2).foldlM (Devices.call checks) D = some D') :
    Injected H S (addr i) (eventsOf i es) (callsBy i t.2) ∧
      D'.keyboard = (inputs (callsBy i t.2)).flatMap (fun x => keyboardEvents x.1) ∧
      (∀ k, k ∈ heldButtons D'.mouse ↔
        lastWrite (btnWrite k) ((inputs (callsBy i t.2)).map Prod.fst) = some true) ∧
      ∀ axis qs, axis = .relX ∨ axis = .relY →
        qs = (inputs (callsBy i t.2)).filterMap (distance axis) →
        (∀ q ∈ qs, |q| ≤ 2147483647) →
          |(travelled axis D'.mouse : ℚ) - qs.sum| ≤ qs.length / 2 := by
  obtain ⟨evs, hmouse, hkeys, htravel, hheld⟩ := Devices.calls_eq hD
  rw [hm, List.nil_append] at hmouse
  rw [hk, List.nil_append] at hkeys
  refine ⟨injected_run (session_calls h i).2, hkeys, ?_, ?_⟩
  · intro k
    have hk := hheld k ∅
    rw [hmouse, heldButtons, ← decide_eq_true_iff (p := k ∈ _), hk]
    cases lastWrite (btnWrite k) ((inputs (callsBy i t.2)).map Prod.fst) <;> simp
  · rintro axis qs haxis rfl hfit
    rw [hmouse, htravel axis haxis]
    exact sum_rounded_le hfit

/-- A JSON library that reads a press of the left button, or else a motion by a third. -/
def mouseSerde : Serde :=
  { sampleSerde with
    inputEvent := fun p => some (if p = [0] then .btn "left" true else .move (1 / 3) 0) }

/-- A client that joins, presses the button and drags. -/
def dragging : List (HostEvent Unit Panel) :=
  (connected ++ [Event.arrive (writeFrames [(Proto.input, [0]), (Proto.input, [1]),
    (Proto.input, [1])]), .read {}, .read {}, .read {}]).map (.turn ())

theorem devices_follow_client_drag :
    ∃ t D, Run (Steps (hostTrace Panel.kscreen sampleHost mouseSerde))
        (hostStart (fun _ => .v4 0) { world := (false, 1, 0) }, []) dragging t ∧
      (callsBy () t.2).foldlM (Devices.call false) { pointer := middle } = some D ∧
      .btnLeft ∈ heldButtons D.mouse ∧ |(travelled .relX D.mouse : ℚ) - 640 / 639| ≤ 1 := by
  have hrun : (dragging.foldlM (hostTrace Panel.kscreen sampleHost mouseSerde)
      (hostStart (fun _ => .v4 0) { world := (false, 1, 0) }, [])).map
        (fun t => (inputs (callsBy () t.2),
          ((callsBy () t.2).foldlM (Devices.call false) { pointer := middle }).isSome)) =
      some ([(.btn "left" true, 320 / 213), (.move (1 / 3) 0, 320 / 213),
        (.move (1 / 3) 0, 320 / 213)], true) := by decide +kernel
  obtain ⟨t, ht, hp⟩ := Option.map_eq_some_iff.1 hrun
  obtain ⟨hin, hsome⟩ := Prod.mk.inj hp
  obtain ⟨D, hD⟩ := Option.isSome_iff_exists.1 hsome
  obtain ⟨-, -, hheld, hdrift⟩ := devices_follow_client _ _ _ _ _ _ t (run_steps_iff.2 ht) ()
    false _ D rfl rfl hD
  rw [hin] at hheld hdrift
  refine ⟨t, D, run_steps_iff.2 ht, hD, (hheld .btnLeft).2 (by decide), ?_⟩
  have hle := hdrift .relX [320 / 639, 320 / 639] (.inl rfl) (by decide +kernel)
    (by decide +kernel)
  norm_num at hle ⊢
  exact hle

end DdrdeskHost
