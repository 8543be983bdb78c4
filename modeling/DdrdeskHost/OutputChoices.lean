import DdrdeskHost.Cleanup
import DdrdeskHost.SessionStep
import Mathlib.Tactic.Linarith

namespace DdrdeskHost
open Text
set_option autoImplicit true

/-- The host takes a step, or the daemon is killed and started again: `SAVED` is lost, the file and
the output are as they were. -/
inductive LifeEvent (ι : Type*) (W : Type)
  | host (e : HostEvent ι W)
  | restart (addr : ι → IpAddr)

def lifeStep [DecidableEq ι] (K : Kscreen W) (H : HostState) (S : Serde)
    (s : (ι → IpAddr × Conn) × Shared W) :
    LifeEvent ι W → Option ((ι → IpAddr × Conn) × Shared W)
  | .host e => hostStep K H S s e
  | .restart addr => some (hostStart addr { s.2.display with saved := none })

/-- The configurations that the user has set, and the one in the file that the first daemon
found. -/
def choices (config : W → SavedOutput) (d : Display W) (es : List (LifeEvent ι W)) :
    List SavedOutput :=
  config d.world :: (d.file.toList ++ es.filterMap fun
    | .host (.world w) => some (config w)
    | _ => none)

/-- Every part of a configuration is one that the user has chosen, or a mode that is listed, or a
scale of the host; the rotation is the user's. -/
structure Chosen (K : Kscreen W) (cs : List SavedOutput) (c : SavedOutput) : Prop where
  mode : (∃ x ∈ cs, c.mode = x.mode) ∨
    ∃ w text, K.list w = some text ∧ c.mode ∈ (parseModes text).map Mode.label
  scale : (∃ x ∈ cs, c.scale = x.scale) ∨ ∃ q ∈ uiScales, c.scale = scaleText q
  rotation : ∃ x ∈ cs, c.rotation = x.rotation

/-- What the daemon sets by itself. -/
def Offered (K : Kscreen W) : Setting → Prop
  | .mode m => ∃ w text, K.list w = some text ∧ m ∈ (parseModes text).map Mode.label
  | .scale s => ∃ q ∈ uiScales, scaleText q = s
  | .rotation _ => False

/-- The output and what has been saved of it are made of choices. -/
structure Within (K : Kscreen W) (config : W → SavedOutput) (cs : List SavedOutput)
    (d : Display W) : Prop where
  world : Chosen K cs (config d.world)
  saved : ∀ s ∈ d.saved, Chosen K cs s ∧ ∃ w, config w = s
  file : ∀ s ∈ d.file, Chosen K cs s ∧ ∃ w, config w = s

section
variable {K : Kscreen W} {config : W → SavedOutput} {cs cs' : List SavedOutput} {d : Display W}

theorem Chosen.of_mem (h : c ∈ cs) : Chosen K cs c :=
  ⟨.inl ⟨c, h, rfl⟩, .inl ⟨c, h, rfl⟩, c, h, rfl⟩

theorem Chosen.mono (h : Chosen K cs c) (hsub : cs ⊆ cs') : Chosen K cs' c := by
  obtain ⟨hm, hs, x, hx, hr⟩ := h
  refine ⟨?_, ?_, x, hsub hx, hr⟩
  · rcases hm with ⟨y, hy, hm⟩ | hm
    · exact .inl ⟨y, hsub hy, hm⟩
    · exact .inr hm
  · rcases hs with ⟨y, hy, hs⟩ | hs
    · exact .inl ⟨y, hsub hy, hs⟩
    · exact .inr hs

theorem Chosen.set (h : Chosen K cs c) (hx : Offered K x) : Chosen K cs (c.set x) := by
  cases x with
  | mode m => exact ⟨.inr hx, h.scale, h.rotation⟩
  | scale s =>
    obtain ⟨q, hq, rfl⟩ := hx
    exact ⟨h.mode, .inr ⟨q, hq, rfl⟩, h.rotation⟩
  | rotation => cases hx

theorem Chosen.sets {settings : List Setting} (h : Chosen K cs c)
    (hx : ∀ x ∈ settings, Offered K x) :
    Chosen K cs (settings.foldl SavedOutput.set c) := by
  induction settings generalizing c with
  | nil => exact h
  | cons x xs ih =>
    obtain ⟨hx, hxs⟩ := List.forall_mem_cons.1 hx
    exact ih (h.set hx) hxs

theorem Offered.accepted (h : Offered K x) : Accepted K config x := by
  cases x with
  | mode | scale => exact .inl h
  | rotation => cases h

theorem viewportSettings_offered (vp : Viewport) (hout : K.list w = some out) :
    ∀ x ∈ viewportSettings vp out, Offered K x := by
  rw [viewportSettings]
  cases hb : bestMode (targetSize vp) (parseModes out) with
  | none => simp
  | some b =>
    obtain ⟨mode, scale, sc⟩ := b
    obtain ⟨hm, hs⟩ := candidate_bestMode _ _ _ hb
    exact List.forall_mem_cons.2 ⟨⟨w, out, hout, hm⟩,
      List.forall_mem_singleton.2 ⟨scale, viewportScales_subset hs, rfl⟩⟩

variable (L : OneOutput K config)
include L

theorem Within.save (hw : FileWrites K) (h : Within K config cs d) :
    Within K config cs (if d.saved.isNone then saveCurrent K d else d) ∧
      (if d.saved.isNone then saveCurrent K d else d).world = d.world := by
  rw [saveCurrent_eq L, hw]
  split
  · have hnew : ∀ s ∈ some (config d.world), Chosen K cs s ∧ ∃ w, config w = s := by
      intro s hs
      cases hs
      exact ⟨h.world, d.world, rfl⟩
    exact ⟨⟨h.world, hnew, hnew⟩, rfl⟩
  · exact ⟨h, rfl⟩

theorem Within.runSettings (h : Within K config cs d) (hx : ∀ x ∈ settings, Offered K x)
    (hn : name = (config d.world).name) : Within K config cs (runSettings K name settings d) := by
  refine ⟨?_, h.saved, h.file⟩
  rw [config_runSettings L d (fun x hm => (hx x hm).accepted) hn]
  exact h.world.sets hx

theorem Within.applyViewport (hw : FileWrites K) (h : Within K config cs d) (vp : Viewport) :
    Within K config cs (applyViewport K vp d).1 := by
  obtain ⟨text, ht, hp⟩ := primaryListing_eq L d.world
  obtain ⟨hsave, hworld⟩ := h.save L hw
  simp only [DdrdeskHost.applyViewport, hp, applySettings]
  split
  · exact hsave
  · apply hsave.runSettings L (viewportSettings_offered vp ht)
    rw [hworld]

theorem Within.applyUiScale (hw : FileWrites K) (h : Within K config cs d) (factor : ℚ) :
    Within K config cs (applyUiScale K factor d) := by
  obtain ⟨hsave, hworld⟩ := h.save L hw
  simp only [DdrdeskHost.applyUiScale, L.live, ↓reduceIte]
  rw [outputName_eq L _ fun s hs => (hsave.saved s hs).2]
  apply hsave.runSettings L _ rfl
  exact List.forall_mem_singleton.2 ⟨_, snapScale_mem _, rfl⟩

theorem Within.restore (h : Within K config cs d) : Within K config cs (restore K d) := by
  rw [DdrdeskHost.restore]
  split
  · exact h
  · next s hs =>
    have hsaved : Chosen K cs s ∧ ∃ w, config w = s := by
      rcases Option.or_eq_some_iff.1 hs with hs | ⟨-, hs⟩
      · exact h.saved s hs
      · exact h.file s hs
    obtain ⟨hc, w, rfl⟩ := hsaved
    rw [if_pos (L.live d.world)]
    refine ⟨?_, h.saved, h.file⟩
    rw [config_restoreSettings L d w]
    exact hc

theorem Within.perform {g g' : Shared W} (hw : FileWrites K)
    (h : Within K config cs g.display) (hx : g.perform K x = some g') :
    Within K config cs g'.display := by
  cases x with
  | allow | setScreen =>
    obtain ⟨-, hx⟩ := Option.ite_none_right_eq_some.1 hx
    cases hx
    exact h
  | applyViewport vp enc =>
    obtain ⟨-, hx⟩ := Option.ite_none_right_eq_some.1 hx
    cases hx
    exact h.applyViewport L hw vp
  | applyUiScale factor =>
    cases hx
    exact h.applyUiScale L hw factor
  | restore =>
    cases hx
    exact h.restore L
  | _ =>
    cases hx
    exact h

theorem Within.performs {g g' : Shared W} {es : List Effect} (hw : FileWrites K)
    (h : Within K config cs g.display) (hx : es.foldlM (Shared.perform K) g = some g') :
    Within K config cs g'.display := by
  induction es generalizing g with
  | nil =>
    cases hx
    exact h
  | cons x es ih =>
    obtain ⟨g₁, h₁, hx⟩ := Option.bind_eq_some_iff.1 (List.foldlM_cons.symm.trans hx)
    exact ih (h.perform L hw h₁) hx

end

theorem choices_append (config : W → SavedOutput) (d : Display W) (es es' : List (LifeEvent ι W)) :
    choices config d es ⊆ choices config d (es ++ es') := by
  simp only [choices, List.filterMap_append]
  intro x hx
  rcases List.mem_cons.1 hx with rfl | hx
  · exact List.mem_cons_self
  · apply List.mem_cons_of_mem
    rw [← List.append_assoc]
    exact List.mem_append_left _ hx

theorem Within.mono {cs cs' : List SavedOutput} (h : Within K config cs d) (hsub : cs ⊆ cs') :
    Within K config cs' d :=
  ⟨h.world.mono hsub, fun s hs => ⟨(h.saved s hs).1.mono hsub, (h.saved s hs).2⟩,
    fun s hs => ⟨(h.file s hs).1.mono hsub, (h.file s hs).2⟩⟩

theorem within_run {ι : Type*} [DecidableEq ι] {K : Kscreen W} {config : W → SavedOutput}
    (L : OneOutput K config) (hk : FileWrites K) {H : HostState} {S : Serde}
    {addr : ι → IpAddr} {d : Display W} {es : List (LifeEvent ι W)}
    {s : (ι → IpAddr × Conn) × Shared W}
    (hd : d.saved = none) (hf : ∀ s ∈ d.file, ∃ w, config w = s)
    (h : Run (Steps (lifeStep K H S)) (hostStart addr d) es s) :
    Within K config (choices config d es) s.2.display := by
  apply h.invariant_trace (p := [])
    (I := fun p s => Within K config (choices config d p) s.2.display)
  · intro p s e t hs hst
    have hs := hs.mono (choices_append config d p [e])
    cases e with
    | restart addr =>
      cases hst
      exact ⟨hs.world, by simp [hostStart], hs.file⟩
    | host e =>
      cases e with
      | world w =>
        cases hst
        refine ⟨.of_mem ?_, hs.saved, hs.file⟩
        simp [choices]
      | turn i e =>
        obtain ⟨c, es, g, -, hg, rfl⟩ := hostStep_turn_cases hst
        exact hs.performs L hk hg
  · refine ⟨.of_mem List.mem_cons_self, ?_, ?_⟩
    · simp [hostStart, hd]
    · intro s hs
      have hs : s ∈ d.file := hs
      refine ⟨.of_mem ?_, hf s hs⟩
      simp [choices, Option.mem_def.1 hs]

/-- Whatever sessions do, and wherever the daemon is killed and the user sets the output, all that
is ever set or kept is a choice of the user, a listed mode or a scale of the host, and the output is
not rotated but by the user. -/
theorem output_within_choices {ι : Type*} [DecidableEq ι] (K : Kscreen W)
    (config : W → SavedOutput) (L : OneOutput K config) (hk : FileWrites K) (H : HostState)
    (S : Serde) (addr : ι → IpAddr) (d : Display W) (hd : d.saved = none)
    (hf : ∀ s ∈ d.file, ∃ w, config w = s) (es : List (LifeEvent ι W))
    (s : (ι → IpAddr × Conn) × Shared W)
    (h : Run (Steps (lifeStep K H S)) (hostStart addr d) es s) :
    ∀ c, c = config s.2.display.world ∨ s.2.display.saved = some c ∨ s.2.display.file = some c →
      Chosen K (choices config d es) c := by
  have hw := within_run L hk hd hf h
  rintro c (rfl | hc | hc)
  · exact hw.world
  · exact (hw.saved c hc).1
  · exact (hw.file c hc).1

/-- A client joins, the daemon is killed while it streams, and then the user turns the output. -/
def joinedThenKilled : List (LifeEvent Unit Panel) :=
  connected.map (fun e => .host (.turn () e)) ++
    [.restart fun _ => .v4 0, .host (.world (false, 5, 1))]

theorem output_within_choices_kill :
    ∃ s, Run (Steps (lifeStep Panel.kscreen sampleHost sampleSerde))
        (hostStart (fun _ => .v4 0) { world := (false, 1, 0) }) joinedThenKilled s ∧
      Chosen Panel.kscreen
        (choices Panel.config { world := (false, 1, 0) } joinedThenKilled)
        (Panel.config s.2.display.world) ∧
      s.2.display.file = some (Panel.config (false, 1, 0)) := by
  have hrun : (joinedThenKilled.foldlM (lifeStep Panel.kscreen sampleHost sampleSerde)
      (hostStart (fun _ => .v4 0) { world := (false, 1, 0) })).map (fun s => s.2.display.file) =
        some (some (Panel.config (false, 1, 0))) := by decide +kernel
  obtain ⟨s, hs, hfile⟩ := Option.map_eq_some_iff.1 hrun
  have h := run_steps_iff.2 hs
  exact ⟨s, h, output_within_choices _ _ Panel.oneOutput Panel.fileWrites _ _ _ _ rfl (by simp)
    _ s h _ (.inl rfl), hfile⟩

theorem snapScale_nearest (v : ℚ) : ∀ q ∈ uiScales, |snapScale v - v| ≤ |q - v| := by
  have keep : ∀ (xs : List ℚ) (x : ℚ), ∀ q ∈ x :: xs,
      |xs.foldl (fun best x => if |x - v| < |best - v| then x else best) x - v| ≤ |q - v| := by
    intro xs
    induction xs with
    | nil =>
      intro x q hq
      rw [List.mem_singleton.1 hq]
      exact le_refl _
    | cons y ys ih =>
      intro x q hq
      rw [List.foldl_cons]
      by_cases hlt : |y - v| < |x - v|
      · rw [if_pos hlt]
        rcases List.mem_cons.1 hq with rfl | hq
        · exact (ih y y List.mem_cons_self).trans hlt.le
        · exact ih y q hq
      · rw [if_neg hlt]
        rcases List.mem_cons.1 hq with rfl | hq
        · exact ih q q List.mem_cons_self
        · rcases List.mem_cons.1 hq with rfl | hq
          · exact (ih x x List.mem_cons_self).trans (not_lt.1 hlt)
          · exact ih x q (List.mem_cons_of_mem x hq)
  exact keep _ _

theorem sum_le_of_near {x y v : ℚ} (hlt : y < x) (h : |x - v| ≤ |y - v|) : x + y ≤ 2 * v := by
  have hsq := sq_le_sq.2 h
  nlinarith

theorem le_sum_of_near {x y v : ℚ} (hlt : y < x) (h : |y - v| ≤ |x - v|) : 2 * v ≤ x + y := by
  have hsq := sq_le_sq.2 h
  nlinarith

theorem snapScale_mono {v v' : ℚ} (h : v ≤ v') : snapScale v ≤ snapScale v' := by
  by_contra hlt
  rw [not_le] at hlt
  -- both factors are midway between the two steps, and so they are one
  have hv := sum_le_of_near hlt (snapScale_nearest v _ (snapScale_mem v'))
  have hv' := le_sum_of_near hlt (snapScale_nearest v' _ (snapScale_mem v))
  have heq : v = v' := by linarith
  rw [heq] at hlt
  exact lt_irrefl _ hlt

theorem exists_near_scale {v : ℚ} (h1 : 1 ≤ v) (h3 : v ≤ 3) : ∃ q ∈ uiScales, |q - v| ≤ 1 / 8 := by
  have near (n : ℕ) (hn : n < 9) (hlo : 1 + (n : ℚ) / 4 - 1 / 8 ≤ v)
      (hhi : v ≤ 1 + (n : ℚ) / 4 + 1 / 8) : ∃ q ∈ uiScales, |q - v| ≤ 1 / 8 := by
    have hmem : ∀ n : Fin 9, 1 + ((n : ℕ) : ℚ) / 4 ∈ uiScales := by decide +kernel
    refine ⟨_, hmem ⟨n, hn⟩, ?_⟩
    rw [abs_le]
    constructor <;> linarith
  obtain ⟨n, hn⟩ : ∃ n : ℕ, n = ⌊(v - 1) * 4 + 1 / 2⌋.toNat := ⟨_, rfl⟩
  have hpos : 0 ≤ ⌊(v - 1) * 4 + 1 / 2⌋ := Int.floor_nonneg.2 (by linarith)
  have hcast : ((n : ℤ) : ℚ) = (⌊(v - 1) * 4 + 1 / 2⌋ : ℚ) := by
    rw [hn, Int.toNat_of_nonneg hpos]
  have hle := Int.floor_le ((v - 1) * 4 + 1 / 2)
  have hlt := Int.lt_floor_add_one ((v - 1) * 4 + 1 / 2)
  rw [← hcast, Int.cast_natCast] at hle hlt
  apply near n
  · have hn9 : (n : ℚ) < 9 := by linarith
    exact_mod_cast hn9
  · linarith
  · linarith

theorem scaleText_reads : ∀ q ∈ uiScales, parseF32 (scaleText q) = some q := by decide +kernel

theorem hostStep_uiScale [DecidableEq ι] {K : Kscreen W} {s t : (ι → IpAddr × Conn) × Shared W}
    (hp : (s.1 i).2.phase = .streaming l)
    (hpoll : (s.1 i).2.fut.poll (s.1 i).2.arrived = .ready (Proto.uiScale, payload) rest)
    (hu : S.uiScale payload = some u)
    (hst : hostStep K H S s (.turn i (.read a)) = some t) :
    t.2.display = applyUiScale K u.factor s.2.display := by
  obtain ⟨c, es, g, hc, hg, rfl⟩ := hostStep_turn_cases hst
  have hon : onFrame H S (Proto.uiScale, payload) a (s.1 i).2.phase =
      some ((dispatch S l (Proto.uiScale, payload) a).1,
        .dispatched (Proto.uiScale, payload) :: (dispatch S l (Proto.uiScale, payload) a).2) := by
    rw [hp]
    rfl
  rw [Conn.step_ready hpoll hon] at hc
  injection hc with hc
  have hes := congrArg Prod.snd hc
  simp only [dispatch, hu, ↓reduceIte] at hes
  subst hes
  cases hinj : l.injector with
  | false =>
    simp only [hinj, Bool.false_eq_true, ↓reduceIte] at hg
    cases hg
    rfl
  | true =>
    simp only [hinj, ↓reduceIte, List.foldlM_cons, List.foldlM_nil, Shared.perform,
      Option.bind_eq_bind, Option.bind_some, Option.pure_def, Option.bind_eq_some_iff,
      Option.ite_none_right_eq_some] at hg
    obtain ⟨g', ⟨-, hg'⟩, hg⟩ := hg
    cases hg'
    cases hg
    rfl

/-- After a UI_SCALE message, in any state of the host, the output has the step that is nearest to
the factor, written so that it reads as this step, and is otherwise as it was. -/
theorem ui_scale_nearest {ι : Type*} [DecidableEq ι] (K : Kscreen W)
    (config : W → SavedOutput) (L : OneOutput K config) (hk : FileWrites K) (H : HostState)
    (S : Serde) (addr : ι → IpAddr) (d : Display W) (hd : d.saved = none)
    (hf : ∀ s ∈ d.file, ∃ w, config w = s) (es : List (LifeEvent ι W))
    (s t : (ι → IpAddr × Conn) × Shared W)
    (h : Run (Steps (lifeStep K H S)) (hostStart addr d) es s)
    (i : ι) (l : Loop) (payload rest : List UInt8) (u : UiScale) (a : Answer)
    (hp : (s.1 i).2.phase = .streaming l)
    (hpoll : (s.1 i).2.fut.poll (s.1 i).2.arrived = .ready (Proto.uiScale, payload) rest)
    (hu : S.uiScale payload = some u)
    (hst : hostStep K H S s (.turn i (.read a)) = some t) :
    ∃ q ∈ uiScales,
      config t.2.display.world = (config s.2.display.world).set (.scale (scaleText q)) ∧
      parseF32 (scaleText q) = some q ∧
      (∀ q' ∈ uiScales, |q - min (max u.factor 1) 3| ≤ |q' - min (max u.factor 1) 3|) ∧
      (1 ≤ u.factor → u.factor ≤ 3 → |q - u.factor| ≤ 1 / 8) ∧
      ∀ factor, u.factor ≤ factor → q ≤ snapScale (min (max factor 1) 3) := by
  have hw := within_run L hk hd hf h
  have hq := snapScale_mem (min (max u.factor 1) 3)
  have hnear := snapScale_nearest (min (max u.factor 1) 3)
  refine ⟨_, hq, ?_, scaleText_reads _ hq, hnear, ?_, ?_⟩
  · rw [hostStep_uiScale hp hpoll hu hst]
    exact config_applyUiScale L u.factor s.2.display fun c hc => (hw.saved c hc).2
  · intro h1 h3
    obtain ⟨q', hq', hle⟩ := exists_near_scale h1 h3
    rw [max_eq_left h1, min_eq_left h3] at hnear ⊢
    exact (hnear q' hq').trans hle
  · intro factor hle
    exact snapScale_mono (min_le_min_right 3 (max_le_max_right 1 hle))

/-- A JSON library that reads a UI scale of 1.4. -/
def fontSerde : Serde := { sampleSerde with uiScale := fun _ => some ⟨7 / 5⟩ }

/-- A client joins and asks for a UI scale. -/
def joinedThenFont : List (LifeEvent Unit Panel) :=
  (connected ++ [Event.arrive (writeFrame Proto.uiScale [])]).map fun e => .host (.turn () e)

theorem ui_scale_nearest_font :
    ∃ s t, Run (Steps (lifeStep Panel.kscreen sampleHost fontSerde))
        (hostStart (fun _ => .v4 0) { world := (false, 1, 0) }) joinedThenFont s ∧
      hostStep Panel.kscreen sampleHost fontSerde s (.turn () (.read {})) = some t ∧
      ∃ q ∈ uiScales, |q - 7 / 5| ≤ 1 / 8 ∧ Panel.config t.2.display.world =
        (Panel.config s.2.display.world).set (.scale (scaleText q)) := by
  have hrun : (joinedThenFont.foldlM (lifeStep Panel.kscreen sampleHost fontSerde)
      (hostStart (fun _ => .v4 0) { world := (false, 1, 0) })).map
        (fun s => ((s.1 ()).2.phase, (s.1 ()).2.fut.poll (s.1 ()).2.arrived,
          (hostStep Panel.kscreen sampleHost fontSerde s (.turn () (.read {}))).isSome)) =
      some (.streaming ⟨⟨2556, 1179, 852, 393, 3, "landscape"⟩, (1280, 800), true, 320 / 213, 0, 0,
        []⟩, .ready (Proto.uiScale, []) [], true) := by decide +kernel
  obtain ⟨s, hs, hp⟩ := Option.map_eq_some_iff.1 hrun
  obtain ⟨hp, hrest⟩ := Prod.mk.inj hp
  obtain ⟨hpoll, hsome⟩ := Prod.mk.inj hrest
  obtain ⟨t, ht⟩ := Option.isSome_iff_exists.1 hsome
  have h := run_steps_iff.2 hs
  obtain ⟨q, hq, hset, -, -, hnear, -⟩ := ui_scale_nearest _ _ Panel.oneOutput Panel.fileWrites
    _ _ _ _ rfl (by simp) _ s t h () _ _ _ ⟨7 / 5⟩ _ hp hpoll rfl ht
  exact ⟨s, t, h, ht, q, hq, hnear (by norm_num) (by norm_num), hset⟩

end DdrdeskHost
