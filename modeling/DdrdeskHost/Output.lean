import DdrdeskHost.BestMode
import Mathlib.Data.Fintype.Prod

namespace DdrdeskHost
open Text
set_option autoImplicit true

/-- A setting that names a listed mode, a scale of the host, or a value the output can have. -/
def Accepted (K : Kscreen W) (config : W → SavedOutput) : Setting → Prop
  | .mode m =>
    (∃ w text, K.list w = some text ∧ m ∈ (parseModes text).map Mode.label) ∨
      ∃ w, (config w).mode = m
  | .scale s => (∃ q ∈ uiScales, scaleText q = s) ∨ ∃ w, (config w).scale = s
  | .rotation r => ∃ w, (config w).rotation = r

/-- One output with a well-formed listing, a live session, and calls that succeed. -/
structure OneOutput (K : Kscreen W) (config : W → SavedOutput) : Prop where
  live : ∀ w, K.live w = true
  listing : ∀ w, ∃ text, K.list w = some text ∧ parsePrimary text = some (config w)
  name : ∀ w w', (config w).name = (config w').name
  exec : ∀ w (settings : List Setting), (∀ x ∈ settings, Accepted K config x) →
    config (K.exec (settings.map (·.spec (config w).name)) w) =
      settings.foldl SavedOutput.set (config w)

/-- Writes to `saved-output.json` succeed. -/
def FileWrites (K : Kscreen W) : Prop := ∀ w s f, K.persist w s f = some s

theorem snapScale_mem (v : ℚ) : snapScale v ∈ uiScales := by
  have keep : ∀ (xs : List ℚ) (x : ℚ),
      xs.foldl (fun best x => if |x - v| < |best - v| then x else best) x ∈ x :: xs := by
    intro xs
    induction xs with
    | nil => exact fun x => List.mem_singleton_self x
    | cons y ys ih =>
      intro x
      rw [List.foldl_cons]
      split
      · exact List.mem_cons_of_mem x (ih y)
      · rcases List.mem_cons.1 (ih x) with h | h
        · rw [h]
          exact List.mem_cons_self
        · exact List.mem_cons_of_mem x (List.mem_cons_of_mem y h)
  exact keep _ _

theorem viewportScales_subset : viewportScales ⊆ uiScales := by decide +kernel

section
variable {K : Kscreen W} {config : W → SavedOutput}

theorem uiScale_accepted (v : ℚ) : Accepted K config (.scale (scaleText (snapScale v))) :=
  .inl ⟨_, snapScale_mem v, rfl⟩

variable (L : OneOutput K config)
include L

theorem currentOutput_eq (w : W) : currentOutput K w = some (config w) := by
  obtain ⟨text, ht, hp⟩ := L.listing w
  rw [currentOutput, if_pos (L.live w), ht, Option.bind_some, hp]

theorem saveCurrent_eq (d : Display W) :
    saveCurrent K d =
      { d with file := K.persist d.world (config d.world) d.file,
               saved := some (config d.world) } := by
  rw [saveCurrent, currentOutput_eq L]

theorem primaryListing_eq (w : W) :
    ∃ text, K.list w = some text ∧ primaryListing K w = some ((config w).name, text) := by
  obtain ⟨text, ht, hp⟩ := L.listing w
  have hprimary : primaryListing K w = some ((config w).name, text) := by
    rw [primaryListing, if_pos (L.live w), ht, Option.bind_some, hp, Option.map_some]
  exact ⟨text, ht, hprimary⟩

theorem outputName_eq (d : Display W) (hs : ∀ s ∈ d.saved, ∃ w, config w = s) :
    outputName K d = some (config d.world).name := by
  obtain ⟨text, ht, hp⟩ := L.listing d.world
  rw [outputName, ht, Option.bind_some, hp]
  cases hd : d.saved with
  | none => rfl
  | some s =>
    obtain ⟨w, hw⟩ := hs s hd
    rw [Option.map_some, Option.some_or, ← hw, L.name w d.world]

theorem config_runSettings (d : Display W) (hx : ∀ x ∈ settings, Accepted K config x)
    (hn : name = (config d.world).name) :
    config (runSettings K name settings d).world =
      settings.foldl SavedOutput.set (config d.world) := by
  rw [hn]
  exact L.exec d.world settings hx

theorem config_applyUiScale (factor : ℚ) (d : Display W)
    (hs : ∀ s ∈ d.saved, ∃ w, config w = s) :
    config (applyUiScale K factor d).world =
      (config d.world).set (.scale (scaleText (snapScale (min (max factor 1) 3)))) := by
  have hx : ∀ x ∈ [Setting.scale (scaleText (snapScale (min (max factor 1) 3)))],
      Accepted K config x := by
    intro x hx
    rw [List.mem_singleton.1 hx]
    exact uiScale_accepted _
  simp only [applyUiScale, L.live, ↓reduceIte, saveCurrent_eq L]
  cases hd : d.saved with
  | none =>
    have hname : ∀ s ∈ some (config d.world), ∃ w, config w = s := by simp
    simp only [Option.isNone_none, ↓reduceIte]
    rw [outputName_eq L { d with file := _, saved := some (config d.world) } hname]
    exact config_runSettings L _ hx rfl
  | some s =>
    simp only [Option.isNone_some, Bool.false_eq_true, ↓reduceIte]
    rw [outputName_eq L d hs]
    exact config_runSettings L _ hx rfl

theorem config_restoreSettings (d : Display W) (w : W) :
    config (runSettings K (config w).name (restoreSettings (config w)) d).world = config w := by
  rw [config_runSettings L d _ (L.name w d.world)]
  · simp only [restoreSettings, List.foldl_cons, List.foldl_nil, SavedOutput.set,
      L.name d.world w]
  · intro x hx
    simp only [restoreSettings, List.mem_cons, List.not_mem_nil, or_false] at hx
    rcases hx with rfl | rfl | rfl
    · exact .inr ⟨w, rfl⟩
    · exact .inr ⟨w, rfl⟩
    · exact ⟨w, rfl⟩

end

/-- An output with two modes; the state says which mode, which scale and which rotation. -/
abbrev Panel := Bool × Fin 9 × Fin 4

namespace Panel

def modeText (m : Bool) : Str := if m then "1280x800@60".toList else "1920x1200@60".toList

def scaleOf (s : Fin 9) : Str := scaleText (uiScales.getD s 1)

def rotationCode (r : Fin 4) : Str := ["1".toList, "2".toList, "4".toList, "8".toList].getD r []

def config (p : Panel) : SavedOutput :=
  { name := "eDP-1".toList, mode := modeText p.1, scale := scaleOf p.2.1,
    rotation := rotationWord (rotationCode p.2.2) }

def listing (p : Panel) : Str :=
  let mark (m : Bool) := if p.1 = m then "*".toList else []
  "Output: 1 eDP-1\n".toList ++
    "Modes: 1:".toList ++ modeText false ++ "!".toList ++ mark false ++
    " 2:".toList ++ modeText true ++ mark true ++
    "\nScale: ".toList ++ scaleOf p.2.1 ++
    "\nRotation: ".toList ++ rotationCode p.2.2 ++ "\n".toList

def set (p : Panel) (spec : Str) : Panel :=
  let is (x : Setting) := decide (x.spec "eDP-1".toList = spec)
  match [false, true].find? fun m => is (.mode (modeText m)) with
  | some m => (m, p.2)
  | none =>
    match (List.finRange 9).find? fun s => is (.scale (scaleOf s)) with
    | some s => (p.1, s, p.2.2)
    | none =>
      match (List.finRange 4).find? fun r => is (.rotation (rotationWord (rotationCode r))) with
      | some r => (p.1, p.2.1, r)
      | none => p

def kscreen : Kscreen Panel where
  live _ := true
  list p := some (listing p)
  exec specs p := specs.foldl set p
  persist _ s _ := some s

theorem parsePrimary_listing : ∀ p, parsePrimary (listing p) = some (config p) := by
  decide +kernel

theorem labels_listing : ∀ p : Panel,
    (parseModes (listing p)).map Mode.label = [modeText false, modeText true] := by
  decide +kernel

theorem config_set_mode : ∀ (m : Bool) (p : Panel),
    config (set p ((Setting.mode (modeText m)).spec "eDP-1".toList)) =
      (config p).set (.mode (modeText m)) := by
  decide +kernel

theorem config_set_scale : ∀ (s : Fin 9) (p : Panel),
    config (set p ((Setting.scale (scaleOf s)).spec "eDP-1".toList)) =
      (config p).set (.scale (scaleOf s)) := by
  decide +kernel

theorem config_set_rotation : ∀ (r : Fin 4) (p : Panel),
    config (set p ((Setting.rotation (rotationWord (rotationCode r))).spec "eDP-1".toList)) =
      (config p).set (.rotation (rotationWord (rotationCode r))) := by
  decide +kernel

theorem config_set (hx : Accepted kscreen config x) (p : Panel) :
    config (set p (x.spec "eDP-1".toList)) = (config p).set x := by
  cases x with
  | mode m =>
    have hm : ∃ i, modeText i = m := by
      rcases hx with ⟨w, text, hw, hm⟩ | ⟨w, hw⟩
      · cases hw
        rw [labels_listing] at hm
        rcases List.mem_cons.1 hm with h | h
        · exact ⟨false, h.symm⟩
        · exact ⟨true, (List.mem_singleton.1 h).symm⟩
      · exact ⟨w.1, hw⟩
    obtain ⟨i, rfl⟩ := hm
    exact config_set_mode i p
  | scale s =>
    have hs : ∃ i, scaleOf i = s := by
      rcases hx with ⟨q, hq, rfl⟩ | ⟨w, hw⟩
      · obtain ⟨i, hi, rfl⟩ := List.getElem_of_mem hq
        have hget : uiScales.getD i 1 = uiScales[i] := by
          rw [List.getD_eq_getElem?_getD, List.getElem?_eq_getElem hi]
          rfl
        exact ⟨⟨i, hi⟩, congrArg scaleText hget⟩
      · exact ⟨w.2.1, hw⟩
    obtain ⟨i, rfl⟩ := hs
    exact config_set_scale i p
  | rotation r =>
    obtain ⟨w, rfl⟩ := hx
    exact config_set_rotation w.2.2 p

/-- The assumptions on the output can be met. -/
theorem oneOutput : OneOutput kscreen config where
  live _ := rfl
  listing p := ⟨listing p, rfl, parsePrimary_listing p⟩
  name _ _ := rfl
  exec p settings hx := by
    induction settings generalizing p with
    | nil => rfl
    | cons x xs ih =>
      have hx' := config_set (hx x List.mem_cons_self) p
      have hxs := ih (set p (x.spec "eDP-1".toList))
        fun y hy => hx y (List.mem_cons_of_mem x hy)
      exact hxs.trans (by rw [hx', List.foldl_cons])

theorem fileWrites : FileWrites kscreen := fun _ _ _ => rfl

end Panel

end DdrdeskHost
