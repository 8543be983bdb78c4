import DdrdeskHost.EncodeSize
import DdrdeskHost.StatusFile

namespace DdrdeskHost
open Text
set_option autoImplicit true

structure CaptureParams where
  width : Nat
  height : Nat
  fps : Nat
  kbps : Nat
  monitor : Str

/-- The name at the head of a line of `--list-monitors`, if it is one of a monitor. -/
def monitorOf (line : Str) : Option Str :=
  let name := trim (line.takeWhile (· ≠ '|'))
  if name ≠ [] ∧ name ≠ "region".toList ∧ name ≠ "portal".toList ∧
    ¬"/dev/".toList.isPrefixOf name then some name
  else none

/-- `detect_monitor`; `listing` is what the recorder lists, if it can be run. -/
def detectMonitor (listing : Option Str) : Str :=
  (listing.bind fun text => (lines text).findSome? monitorOf).getD "eDP-1".toList

/-- What `run_session` asks of the recorder. -/
def captureParams (enc : Nat × Nat) (listing : Option Str) : CaptureParams :=
  { width := enc.1, height := enc.2, fps := 60, kbps := 0, monitor := detectMonitor listing }

def sizeText (p : CaptureParams) : Str :=
  Nat.toDigits 10 (max p.width 2 / 2 * 2) ++ 'x' :: Nat.toDigits 10 (max p.height 2 / 2 * 2)

/-- The arguments that `spawn_gsr` starts the recorder with. -/
def gsrArgs (p : CaptureParams) (fifo : Str) : List Str := [
  "-w".toList, p.monitor,
  "-c".toList, "flv".toList,
  "-k".toList, "h264".toList,
  "-f".toList, Nat.toDigits 10 p.fps,
  "-s".toList, sizeText p,
  "-cursor".toList, "yes".toList,
  "-keyint".toList, "8".toList,
  "-encoder".toList, "gpu".toList,
  "-fallback-cpu-encoding".toList, "yes".toList,
  "-q".toList, "ultra".toList,
  "-tune".toList, "performance".toList,
  "-o".toList, fifo]

/-- A size that is encoded. -/
structure EncoderSize (enc : Nat × Nat) : Prop where
  even_width : enc.1 % 2 = 0
  even_height : enc.2 % 2 = 0
  width : 640 ≤ enc.1 ∧ enc.1 ≤ 1280
  height : 360 ≤ enc.2 ∧ enc.2 ≤ 800

/-- The name of a monitor that the recorder lists, or of the default one; the other things that it
lists ask the user, or are devices. -/
structure MonitorName (listing : Option Str) (name : Str) : Prop where
  ne_nil : name ≠ []
  single : '|' ∉ name
  ne_region : name ≠ "region".toList
  ne_portal : name ≠ "portal".toList
  not_device : ¬"/dev/".toList <+: name
  listed : name = "eDP-1".toList ∨ ∃ text ∈ listing, ∃ line ∈ lines text,
    name = trim (line.takeWhile (· ≠ '|'))

theorem mem_of_mem_trim (h : c ∈ trim s) : c ∈ s :=
  (List.dropWhile_sublist _).subset ((List.rdropWhile_prefix _ _).subset h)

theorem monitorName_of (hlisting : listing = some text) (hline : line ∈ lines text)
    (h : monitorOf line = some name) : MonitorName listing name := by
  obtain ⟨⟨hnil, hregion, hportal, hdev⟩, h⟩ := Option.ite_none_right_eq_some.1 h
  cases h
  have hsingle : '|' ∉ trim (line.takeWhile (· ≠ '|')) := by
    intro hmem
    have hbar := List.mem_takeWhile_imp (mem_of_mem_trim hmem)
    simp at hbar
  exact ⟨hnil, hsingle, hregion, hportal, fun hpre => hdev (List.isPrefixOf_iff_prefix.2 hpre),
    .inr ⟨text, hlisting, line, hline, rfl⟩⟩

theorem monitorName_detect (listing : Option Str) :
    MonitorName listing (detectMonitor listing) := by
  rw [detectMonitor]
  cases h : listing.bind fun text => (lines text).findSome? monitorOf with
  | none => exact ⟨by decide, by decide, by decide, by decide, by decide, .inl rfl⟩
  | some name =>
    obtain ⟨text, htext, hfind⟩ := Option.bind_eq_some_iff.1 h
    obtain ⟨line, hmem, hline⟩ := List.exists_of_findSome?_eq_some hfind
    exact monitorName_of htext hmem hline

theorem sizeText_captureParams (h : EncoderSize enc) (listing : Option Str) :
    sizeText (captureParams enc listing) =
      Nat.toDigits 10 enc.1 ++ 'x' :: Nat.toDigits 10 enc.2 := by
  have hw : max enc.1 2 / 2 * 2 = enc.1 := by
    have := h.even_width
    have := h.width.1
    omega
  have hh : max enc.2 2 / 2 * 2 = enc.2 := by
    have := h.even_height
    have := h.height.1
    omega
  simp only [sizeText, captureParams, hw, hh]

theorem encoderSize_encodeSize (K : Kscreen W) (w : W) : EncoderSize (encodeSize K w) := by
  obtain ⟨-, -, hw, hh⟩ := fits_fitEven (Nat.le_max_right (logicalSize K w).1 640)
    (Nat.le_max_right (logicalSize K w).2 400)
  rw [Nat.max_eq_left (Nat.le_max_right (logicalSize K w).1 640),
    Nat.max_eq_left (Nat.le_max_right (logicalSize K w).2 400)] at hw hh
  exact ⟨hw.even, hh.even, ⟨Nat.le_max_right _ _, hw.le_bound⟩, Nat.le_max_right _ _, hh.le_bound⟩

theorem applyViewport_enc (K : Kscreen W) (vp : Viewport) (d : Display W) :
    (applyViewport K vp d).2 = encodeSize K d.world := by
  rw [applyViewport]
  split <;> rfl

def Effect.starts : Effect → Bool
  | .captureStart .. => true
  | _ => false

/-- The encoder size that the session holds. -/
def Phase.enc : Phase → Option (Nat × Nat)
  | .sized _ enc | .greeted _ enc | .announced _ enc | .connected _ enc => some enc
  | .streaming l => some l.enc
  | _ => none

/-- The encoder size that the session has announced. -/
def Phase.promised : Phase → Option (Nat × Nat)
  | .greeted _ enc | .announced _ enc | .connected _ enc => some enc
  | .streaming l => some l.enc
  | _ => none

/-- The session has not come to start the recorder. -/
def Phase.unstarted : Phase → Bool
  | .hello | .rejected | .refusing _ | .authenticated _ | .sized .. | .greeted .. | .announced ..
  | .connected .. => true
  | _ => false

/-- The client has been told this size. -/
def Greeted (H : HostState) (S : Serde) (enc : Nat × Nat) (log : List Effect) : Prop :=
  ∃ token, .wrote Proto.serverHello (helloReply H S enc token) .done ∈ log

/-- The recorder is started at most once, with the size that the client has been told. -/
structure Sizing (H : HostState) (S : Serde) (p : Phase) (log : List Effect) : Prop where
  known : ∀ enc, p.enc = some enc → EncoderSize enc
  told : ∀ enc, p.promised = some enc → Greeted H S enc log
  once : log.countP Effect.starts ≤ 1
  unstarted : p.unstarted = true → log.countP Effect.starts = 0
  started : ∀ w h ok, .captureStart w h ok ∈ log → EncoderSize (w, h) ∧ Greeted H S (w, h) log

section
variable {H : HostState} {S : Serde} {addr : IpAddr} {c : Conn} {log es : List Effect}
  {p p' : Phase}

theorem Greeted.append (h : Greeted H S enc log) (es : List Effect) :
    Greeted H S enc (log ++ es) := by
  obtain ⟨token, hmem⟩ := h
  exact ⟨token, List.mem_append_left es hmem⟩

theorem Sizing.hello (H : HostState) (S : Serde) : Sizing H S .hello [] where
  known := by simp [Phase.enc]
  told := by simp [Phase.promised]
  once := Nat.zero_le 1
  unstarted _ := rfl
  started := by simp

theorem Sizing.keep (h : Sizing H S p log) (hk : ∀ enc, p'.enc = some enc → EncoderSize enc)
    (ht : ∀ enc, p'.promised = some enc → Greeted H S enc (log ++ es))
    (hu : p'.unstarted = true → p.unstarted = true) (hs : es.countP Effect.starts = 0) :
    Sizing H S p' (log ++ es) := by
  have hcount : (log ++ es).countP Effect.starts = log.countP Effect.starts := by
    rw [List.countP_append, hs, Nat.add_zero]
  refine ⟨hk, ht, ?_, ?_, ?_⟩
  · rw [hcount]
    exact h.once
  · intro hp
    rw [hcount]
    exact h.unstarted (hu hp)
  · intro w h' ok hm
    rcases List.mem_append.1 hm with hm | hm
    · obtain ⟨hsize, hgreet⟩ := h.started w h' ok hm
      exact ⟨hsize, hgreet.append es⟩
    · exact absurd rfl (List.countP_eq_zero.1 hs _ hm)

theorem Sizing.quiet (h : Sizing H S p log) (he : p'.enc = p.enc ∨ p'.enc = none)
    (hp : p'.promised = p.promised ∨ p'.promised = none)
    (hu : p'.unstarted = true → p.unstarted = true) (hs : es.countP Effect.starts = 0) :
    Sizing H S p' (log ++ es) := by
  refine h.keep ?_ ?_ hu hs
  · intro enc henc
    rcases he with he | he
    · exact h.known enc (he.symm.trans henc)
    · cases he.symm.trans henc
  · intro enc henc
    rcases hp with hp | hp
    · exact (h.told enc (hp.symm.trans henc)).append es
    · cases hp.symm.trans henc

theorem Sizing.leave (h : Sizing H S p log) (he : p'.enc = none) (hp : p'.promised = none)
    (hu : p'.unstarted = false) (hs : es.countP Effect.starts = 0) :
    Sizing H S p' (log ++ es) := by
  refine h.quiet (.inr he) (.inr hp) ?_ hs
  simp [hu]

theorem Sizing.frame (h : Sizing H S (.streaming l) log) (hd : Dispatches S l f a p' es) :
    Sizing H S p' (log ++ .dispatched f :: es) := by
  cases hd with
  | uiScale =>
    refine h.quiet (.inl rfl) (.inl rfl) (fun hu => hu) ?_
    cases l.injector <;> rfl
  | badViewport | pongFailed | goodbye => exact h.leave rfl rfl rfl rfl
  | _ => exact h.quiet (.inl rfl) (.inl rfl) (fun hu => hu) rfl

theorem Sizing.video (h : Sizing H S (.streaming l) log) (queue : List NalUnit) (au : NalUnit)
    (a : Answer) : Sizing H S (onVideo { l with queue := queue } au a).1
      (log ++ (onVideo { l with queue := queue } au a).2) := by
  simp only [onVideo]
  split
  · exact h.quiet (.inl rfl) (.inl rfl) (fun hu => hu) rfl
  · exact h.leave rfl rfl rfl rfl

theorem Sizing.start (h : Sizing H S (.connected vp enc) log) (hp : p'.unstarted = false)
    (he : p'.enc = some enc ∨ p'.enc = none) (hpr : p'.promised = p'.enc) (ok : Bool) :
    Sizing H S p' (log ++ [.captureStart enc.1 enc.2 ok]) := by
  have hsize : EncoderSize enc := h.known enc rfl
  have hgreet : Greeted H S enc (log ++ [.captureStart enc.1 enc.2 ok]) :=
    (h.told enc rfl).append _
  have henc {enc' : Nat × Nat} (h' : p'.enc = some enc') : enc' = enc := by
    rcases he with he | he
    · exact Option.some.inj (h'.symm.trans he)
    · cases he.symm.trans h'
  constructor
  · intro enc' h'
    rw [henc h']
    exact hsize
  · intro enc' h'
    rw [henc (hpr.symm.trans h')]
    exact hgreet
  · rw [List.countP_append, h.unstarted rfl]
    exact Nat.le_refl 1
  · simp [hp]
  · intro w h' ok' hm
    rcases List.mem_append.1 hm with hm | hm
    · exact absurd rfl (List.countP_eq_zero.1 (h.unstarted rfl) _ hm)
    · cases List.mem_singleton.1 hm
      exact ⟨hsize, hgreet⟩

theorem Sizing.next (h : Sizing H S p log) (hn : Proceeds H S addr a p p' es)
    (henc : ∀ vp enc, .applyViewport vp enc ∈ es → EncoderSize enc) :
    Sizing H S p' (log ++ es) := by
  cases hn with
  | limited => exact h.quiet (.inl rfl) (.inl rfl) (fun hu => hu) rfl
  | @sized vp =>
    refine h.keep ?_ (by simp [Phase.promised]) (fun _ => rfl) rfl
    rintro enc he
    cases he
    exact henc vp a.enc List.mem_cons_self
  | @greeted vp enc hw =>
    refine h.keep (fun enc' he => h.known enc' he) ?_ (fun _ => rfl) rfl
    rintro enc' he
    cases he
    exact ⟨a.token, List.mem_append_right log List.mem_cons_self⟩
  | announced | connected => exact h.quiet (.inl rfl) (.inl rfl) (fun hu => hu) rfl
  | streaming => exact h.start rfl (.inl rfl) rfl true
  | notStreaming => exact h.start rfl (.inr rfl) rfl false
  | _ => exact h.leave rfl rfl rfl rfl

theorem Sizing.step (h : Sizing H S c.phase log) (hg : c.Goes H S addr e p es)
    (henc : ∀ vp enc, .applyViewport vp enc ∈ es → EncoderSize enc) :
    Sizing H S p (log ++ es) := by
  cases hg with
  | arrived | ended | pending =>
    rw [List.append_nil]
    exact h
  | queued au hp =>
    rw [hp] at h
    exact h.quiet (.inl rfl) (.inl rfl) (fun hu => hu) rfl
  | @hello f rest a hp hf =>
    rw [hp] at h
    rcases onHello_cases H S f with hq | hq | ⟨vp, hq⟩
    · rw [hq]
      exact h.leave rfl rfl rfl rfl
    · rw [hq]
      exact h.quiet (.inl rfl) (.inl rfl) (fun _ => rfl) rfl
    · rw [hq]
      exact h.quiet (.inl rfl) (.inl rfl) (fun _ => rfl) rfl
  | @frame l f rest a hp hf =>
    rw [hp] at h
    exact h.frame (dispatches S l f a)
  | gone | left => exact h.leave rfl rfl rfl rfl
  | video a hp hq =>
    rw [hp] at h
    exact h.video _ _ a
  | next a hn => exact h.next (proceeds hn) henc

end

section
variable {ι : Type*} {K : Kscreen W} {H : HostState} {S : Serde} {es : List Effect}
  {s t : (ι → Reporter) × (Shared W × Snapshot)}

theorem performs_enc {g g' : Shared W} (h : es.foldlM (Shared.perform K) g = some g') :
    ∀ vp enc, .applyViewport vp enc ∈ es → EncoderSize enc := by
  induction es generalizing g with
  | nil => simp
  | cons x es ih =>
    obtain ⟨g₁, hx, h⟩ := Option.bind_eq_some_iff.1 (List.foldlM_cons.symm.trans h)
    intro vp enc hm
    rcases List.mem_cons.1 hm with rfl | hm
    · obtain ⟨henc, -⟩ := Option.ite_none_right_eq_some.1 hx
      rw [← henc, applyViewport_enc]
      exact encoderSize_encodeSize K _
    · exact ih h vp enc hm

theorem sizing_serve [DecidableEq ι] {e : ServeEvent ι W} (h : serveStep K H S s e = some t)
    (hs : ∀ i, Sizing H S (s.1 i).conn.phase (s.1 i).log) :
    ∀ i, Sizing H S (t.1 i).conn.phase (t.1 i).log := by
  cases e with
  | world w =>
    cases h
    exact hs
  | turn i e =>
    have hturn : Interleave (fun p g x p' g' => True ∧ reportStep K H S p g x = some (p', g'))
        s (i, e) t := Interleave.of_turn trivial h
    apply Interleave.forall_keep (I := fun p _ => Sizing H S p.conn.phase p.log) ?_ ?_ hs hturn
    · rintro p g e p' g' hp ⟨-, hst⟩
      cases e with
      | session e =>
        obtain ⟨-, hst⟩ := Option.ite_none_left_eq_some.1 hst
        obtain ⟨⟨c, es⟩, hc, hst⟩ := Option.bind_eq_some_iff.1 hst
        obtain ⟨sh, hperform, he⟩ := Option.map_eq_some_iff.1 hst
        cases he
        exact hp.step (Conn.goes hc) (performs_enc hperform)
      | load =>
        obtain ⟨-, hst⟩ := Option.ite_none_right_eq_some.1 hst
        cases hst
        exact hp
      | store =>
        rw [reportStep] at hst
        split at hst
        · cases hst
          exact hp
        · cases hst
    · rintro q p g e p' g' hq - -
      exact hq

end

/-- In any interleaving of the sessions, a session starts the recorder once at most, with a single
monitor's name behind `-w` and behind `-s` the size that the client has been told, in decimal; it is
even and within the encoder's bounds. -/
theorem recorder_as_announced [DecidableEq ι] (K : Kscreen W) (H : HostState) (S : Serde)
    (addr : ι → IpAddr) (d : Display W) (es : List (ServeEvent ι W))
    (s : (ι → Reporter) × (Shared W × Snapshot))
    (h : Run (Steps (serveStep K H S)) (serveStart H addr d) es s) (i : ι) :
    (s.1 i).log.countP Effect.starts ≤ 1 ∧
    ∀ w h ok, .captureStart w h ok ∈ (s.1 i).log →
      (∃ token, .wrote Proto.serverHello (helloReply H S (w, h) token) .done ∈ (s.1 i).log) ∧
      EncoderSize (w, h) ∧
      ∀ listing fifo, ∃ monitor, MonitorName listing monitor ∧
        ["-w".toList, monitor] <:+: gsrArgs (captureParams (w, h) listing) fifo ∧
        ["-s".toList, Nat.toDigits 10 w ++ 'x' :: Nat.toDigits 10 h] <:+:
          gsrArgs (captureParams (w, h) listing) fifo := by
  have hsizing : ∀ i, Sizing H S (s.1 i).conn.phase (s.1 i).log := by
    apply h.invariant (I := fun s => ∀ i, Sizing H S (s.1 i).conn.phase (s.1 i).log)
    · exact fun s e t hs hst => sizing_serve hst hs
    · exact fun i => .hello H S
  refine ⟨(hsizing i).once, ?_⟩
  intro w h ok hm
  obtain ⟨hsize, hgreet⟩ := (hsizing i).started w h ok hm
  refine ⟨hgreet, hsize, ?_⟩
  intro listing fifo
  refine ⟨detectMonitor listing, monitorName_detect listing, ⟨[], _, rfl⟩, ?_⟩
  rw [← sizeText_captureParams hsize listing]
  exact ⟨(gsrArgs (captureParams (w, h) listing) fifo).take 8, _, rfl⟩

theorem recorder_as_announced_two :
    ∃ es s, Run (Steps (serveStep Panel.kscreen sampleHost sampleSerde))
        (twoReporters (false, 1, 0)) es s ∧
      .captureStart 1280 800 true ∈ (s.1 true).log ∧
      ∃ token, .wrote Proto.serverHello (helloReply sampleHost sampleSerde (1280, 800) token)
        .done ∈ (s.1 true).log := by
  have hrun : ((joins false ++ joins true).foldlM
      (serveStep Panel.kscreen sampleHost sampleSerde) (twoReporters (false, 1, 0))).map
        (fun s => decide (.captureStart 1280 800 true ∈ (s.1 true).log)) = some true := by
    decide +kernel
  obtain ⟨s, hs, hp⟩ := Option.map_eq_some_iff.1 hrun
  have hm := of_decide_eq_true hp
  have h := run_steps_iff.2 hs
  exact ⟨_, s, h, hm, ((recorder_as_announced _ _ _ _ _ _ s h true).2 1280 800 true hm).1⟩

end DdrdeskHost
