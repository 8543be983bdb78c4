import DdrdeskHost.Output

namespace DdrdeskHost
set_option autoImplicit true

section
variable (K : Kscreen W)

/-- A session's calls: the viewport, any number of UI scales, and the restoration. -/
def serveDisplay (vp : Viewport) (factors : List ℚ) (d : Display W) : Display W :=
  restore K (factors.foldl (fun d f => applyUiScale K f d) (applyViewport K vp d).1)

end

/-- While no session is active the user sets the output, or else a client comes and goes. -/
inductive DisplayEvent (W : Type)
  | user (w : W)
  | session (vp : Viewport) (factors : List ℚ)

/-- The configurations right before and right after each session. -/
def sessions (K : Kscreen W) (config : W → SavedOutput) :
    Display W → List (DisplayEvent W) → List (SavedOutput × SavedOutput)
  | _, [] => []
  | d, .user w :: es => sessions K config { d with world := w } es
  | d, .session vp factors :: es =>
    let d' := serveDisplay K vp factors d
    (config d.world, config d'.world) :: sessions K config d' es

/-- What the user last set the output to, at the beginning of each session. -/
def wanted (config : W → SavedOutput) : W → List (DisplayEvent W) → List SavedOutput
  | _, [] => []
  | _, .user w :: es => wanted config w es
  | w, .session _ _ :: es => config w :: wanted config w es

theorem wanted_congr {config : W → SavedOutput} (h : config w = config w')
    (es : List (DisplayEvent W)) : wanted config w es = wanted config w' es := by
  induction es with
  | nil => rfl
  | cons e es ih =>
    cases e with
    | user => rfl
    | session => simp only [wanted, h, ih]

theorem restore_saved (K : Kscreen W) (d : Display W) : (restore K d).saved = d.saved := by
  rw [restore]
  split
  · rfl
  · split <;> rfl

section
variable {K : Kscreen W} {config : W → SavedOutput} (L : OneOutput K config)
include L

theorem applyViewport_saved (vp : Viewport) (d : Display W) :
    (applyViewport K vp d).1.saved = some (d.saved.getD (config d.world)) := by
  obtain ⟨text, -, hp⟩ := primaryListing_eq L d.world
  have keep : ∀ (settings : List Setting) (d : Display W),
      (applySettings K (config d.world).name settings d).saved = d.saved := by
    intro settings d
    rw [applySettings]
    split <;> rfl
  simp only [applyViewport, hp, saveCurrent_eq L]
  cases hd : d.saved with
  | none => exact keep _ { d with file := _, saved := some (config d.world) }
  | some s => exact (keep _ d).trans hd

theorem applyUiScale_saved (factor : ℚ) (d : Display W) :
    (applyUiScale K factor d).saved = some (d.saved.getD (config d.world)) := by
  simp only [applyUiScale, L.live, ↓reduceIte, saveCurrent_eq L]
  cases hd : d.saved with
  | none =>
    simp only [Option.isNone_none, ↓reduceIte, Option.getD_none]
    split <;> rfl
  | some s =>
    simp only [Option.isNone_some, Bool.false_eq_true, ↓reduceIte, Option.getD_some]
    split
    · exact hd
    · exact hd

theorem applyUiScales_saved (factors : List ℚ) (hs : d.saved = some s) :
    (factors.foldl (fun d f => applyUiScale K f d) d).saved = some s := by
  induction factors generalizing d with
  | nil => exact hs
  | cons f fs ih =>
    apply ih
    rw [applyUiScale_saved L, hs, Option.getD_some]

theorem serveDisplay_saved (vp : Viewport) (factors : List ℚ) (d : Display W) :
    (serveDisplay K vp factors d).saved = some (d.saved.getD (config d.world)) := by
  rw [serveDisplay, restore_saved]
  exact applyUiScales_saved L factors (applyViewport_saved L vp d)

theorem restore_config (d : Display W) (hs : d.saved = some (config w)) :
    config (restore K d).world = config w := by
  rw [restore, hs, Option.some_or]
  simp only [L.live, ↓reduceIte]
  exact config_restoreSettings L d w

/-- A session leaves the output in the first configuration that the daemon ever saved. -/
theorem serveDisplay_config (vp : Viewport) (factors : List ℚ) (d : Display W)
    (hs : ∀ s ∈ d.saved, ∃ w, config w = s) :
    config (serveDisplay K vp factors d).world = d.saved.getD (config d.world) := by
  have hrange : ∃ w, config w = d.saved.getD (config d.world) := by
    cases hd : d.saved with
    | none => exact ⟨d.world, rfl⟩
    | some s => exact hs s hd
  obtain ⟨w, hw⟩ := hrange
  rw [← hw]
  apply restore_config L
  rw [hw]
  exact applyUiScales_saved L factors (applyViewport_saved L vp d)

theorem sessions_saved (es : List (DisplayEvent W)) (d : Display W) {s : SavedOutput}
    (hs : d.saved = some s) (hr : ∃ w, config w = s) :
    (∀ p ∈ sessions K config d es, p.2 = p.1) ↔ ∀ c ∈ wanted config d.world es, c = s := by
  induction es generalizing d with
  | nil => simp only [sessions, wanted, List.not_mem_nil, false_implies, implies_true]
  | cons e es ih =>
    cases e with
    | user w => exact ih { d with world := w } hs
    | session vp factors =>
      have hsaved : (serveDisplay K vp factors d).saved = some s := by
        rw [serveDisplay_saved L, hs, Option.getD_some]
      have hconfig : config (serveDisplay K vp factors d).world = s := by
        rw [serveDisplay_config L vp factors d (fun s' hs' => by
          rw [hs, Option.mem_def, Option.some.injEq] at hs'
          exact hs' ▸ hr), hs, Option.getD_some]
      have hih := ih (serveDisplay K vp factors d) hsaved
      simp only [sessions, wanted, List.forall_mem_cons, hconfig]
      constructor
      · rintro ⟨hb, hrest⟩
        have hw := hih.1 hrest
        rw [wanted_congr (hconfig.trans hb)] at hw
        exact ⟨hb.symm, hw⟩
      · rintro ⟨hb, hrest⟩
        rw [wanted_congr (hb.trans hconfig.symm)] at hrest
        exact ⟨hb.symm, hih.2 hrest⟩

/-- Every session leaves the output as it found it exactly when the user wants the same
configuration at the beginning of all of them. -/
theorem display_given_back (w : W) (file : Option SavedOutput) (es : List (DisplayEvent W)) :
    (∀ p ∈ sessions K config { world := w, file := file } es, p.2 = p.1) ↔
      ∀ c ∈ wanted config w es, ∀ c' ∈ wanted config w es, c = c' := by
  induction es generalizing w with
  | nil => simp only [sessions, wanted, List.not_mem_nil, false_implies, implies_true]
  | cons e es ih =>
    cases e with
    | user w' => exact ih w'
    | session vp factors =>
      let d : Display W := { world := w, file := file }
      have hsaved : (serveDisplay K vp factors d).saved = some (config w) :=
        serveDisplay_saved L vp factors d
      have hconfig : config (serveDisplay K vp factors d).world = config w :=
        serveDisplay_config L vp factors d (by simp)
      have hrest := sessions_saved L es (serveDisplay K vp factors d) hsaved ⟨w, rfl⟩
      rw [wanted_congr hconfig] at hrest
      simp only [sessions, wanted, List.forall_mem_cons]
      constructor
      · rintro ⟨-, hall⟩
        have hw := hrest.1 hall
        constructor
        · exact ⟨trivial, fun c hc => (hw c hc).symm⟩
        · intro c hc
          exact ⟨hw c hc, fun c' hc' => (hw c hc).trans (hw c' hc').symm⟩
      · rintro ⟨⟨-, hw⟩, -⟩
        exact ⟨hconfig, hrest.2 fun c hc => (hw c hc).symm⟩

end

def phone : Viewport :=
  { w := 2556, h := 1179, pointsW := 852, pointsH := 393, scale := 3, orientation := "landscape" }

/-- Two sessions around no change of the user. -/
theorem display_given_back_twice :
    (sessions Panel.kscreen Panel.config { world := (false, 1, 0), file := none }
      [.session phone [2], .session phone []]).Forall fun p => p.2 = p.1 := by
  apply List.forall_iff_forall_mem.2
  apply (display_given_back Panel.oneOutput (false, 1, 0) none _).2
  decide +kernel

/-- The user changes the scale between two sessions, and the second one undoes the change. -/
theorem display_not_given_back :
    ¬∀ (w : Panel) (es : List (DisplayEvent Panel)),
      ∀ p ∈ sessions Panel.kscreen Panel.config { world := w } es, p.2 = p.1 := by
  intro h
  have hs : sessions Panel.kscreen Panel.config { world := (false, 1, 0) }
      [.session phone [], .user (false, 3, 0), .session phone []] =
        [(Panel.config (false, 1, 0), Panel.config (false, 1, 0)),
          (Panel.config (false, 3, 0), Panel.config (false, 1, 0))] := by decide +kernel
  have hp := h (false, 1, 0) [.session phone [], .user (false, 3, 0), .session phone []]
    (Panel.config (false, 3, 0), Panel.config (false, 1, 0))
  rw [hs] at hp
  exact absurd (hp (.tail _ (.head _))) (by decide +kernel)

end DdrdeskHost
