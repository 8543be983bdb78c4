import DdrdeskHost.Display
import Mathlib.Data.List.MinMax

namespace DdrdeskHost
open Text
set_option autoImplicit true

/-- The modes with the scales that `apply_viewport` tries, in its order. -/
def modeScales (modes : List Mode) : List (Mode × ℚ) :=
  modes.flatMap fun m => viewportScales.map fun scale => (m, scale)

def pairScore (target : ℚ × ℚ) (p : Mode × ℚ) : ℚ := score target p.1 p.2

/-- What the search keeps of a pair. -/
def candidate (target : ℚ × ℚ) (p : Mode × ℚ) : Str × ℚ × ℚ := (p.1.label, p.2, pairScore target p)

theorem tryScale_candidate (target : ℚ × ℚ) (m : Mode) (best : Option (Mode × ℚ)) (scale : ℚ) :
    tryScale target m (best.map (candidate target)) scale =
      (List.argAux (fun p q => pairScore target p < pairScore target q) best (m, scale)).map
        (candidate target) := by
  cases best with
  | none => rfl
  | some p =>
    simp only [tryScale, List.argAux, Option.map_some, Option.all_some, decide_eq_true_eq]
    by_cases hlt : pairScore target (m, scale) < pairScore target p
    · have hsc : score target m scale < (candidate target p).2.2 := hlt
      rw [if_pos hsc, if_pos hlt]
      rfl
    · have hsc : ¬score target m scale < (candidate target p).2.2 := hlt
      rw [if_neg hsc, if_neg hlt]
      rfl

theorem bestMode_eq_argmin (target : ℚ × ℚ) (modes : List Mode) :
    bestMode target modes =
      ((modeScales modes).argmin (pairScore target)).map (candidate target) := by
  have hscales : ∀ (m : Mode) (best : Option (Mode × ℚ)),
      viewportScales.foldl (tryScale target m) (best.map (candidate target)) =
        (viewportScales.foldl (fun best scale =>
          List.argAux (fun p q => pairScore target p < pairScore target q) best (m, scale))
          best).map (candidate target) := fun m best =>
    List.foldl_hom _ fun b scale => tryScale_candidate target m b scale
  rw [List.argmin, modeScales, List.foldl_flatMap]
  simp only [List.foldl_map]
  change modes.foldl _ (Option.map (candidate target) none) = _
  apply List.foldl_hom
  intro best m
  exact hscales m best

theorem modeScales_cons (m : Mode) (modes : List Mode) :
    modeScales (m :: modes) = viewportScales.map (fun scale => (m, scale)) ++ modeScales modes :=
  List.flatMap_cons

theorem modeScales_append (ms ms' : List Mode) :
    modeScales (ms ++ ms') = modeScales ms ++ modeScales ms' :=
  List.flatMap_append

theorem mem_modeScales : p ∈ modeScales modes ↔ p.1 ∈ modes ∧ p.2 ∈ viewportScales := by
  constructor
  · intro hp
    obtain ⟨m, hm, hscale⟩ := List.mem_flatMap.1 hp
    obtain ⟨scale, hs, rfl⟩ := List.mem_map.1 hscale
    exact ⟨hm, hs⟩
  · rintro ⟨hm, hs⟩
    exact List.mem_flatMap.2 ⟨p.1, hm, List.mem_map_of_mem hs⟩

theorem modeScales_eq_nil : modeScales modes = [] ↔ modes = [] := by
  cases modes with
  | nil => exact ⟨fun _ => rfl, fun _ => rfl⟩
  | cons m modes => simp [modeScales_cons, viewportScales]

/-- The minimum that is found comes before every other. -/
theorem argmin_lt_of_prefix {f : α → ℚ} (h : a ∈ List.argmin f (l₁ ++ l₂)) (ha : a ∉ l₁)
    (hb : b ∈ l₁) : f a < f b := by
  classical
  by_contra hle
  have hidx := List.index_of_argmin h (List.mem_append_left l₂ hb) (not_lt.1 hle)
  rw [List.idxOf_append_of_notMem ha, List.idxOf_append_of_mem hb] at hidx
  have hlt := List.idxOf_lt_length_of_mem hb
  omega

/-- A listed mode at one of the eight scales. -/
def Candidate (modes : List Mode) (best : Option (Str × ℚ × ℚ)) : Prop :=
  ∀ b ∈ best, b.1 ∈ modes.map Mode.label ∧ b.2.1 ∈ viewportScales

theorem candidate_bestMode (target : ℚ × ℚ) (modes : List Mode) :
    Candidate modes (bestMode target modes) := by
  intro b hb
  rw [bestMode_eq_argmin] at hb
  obtain ⟨p, hp, rfl⟩ := Option.map_eq_some_iff.1 hb
  obtain ⟨hm, hs⟩ := mem_modeScales.1 (List.argmin_mem hp)
  exact ⟨List.mem_map_of_mem hm, hs⟩

/-- The search finds a mode and a scale unless no mode is listed: the pair has the least score, and
every pair before it, in the order of the modes and then of the scales, has a greater one. -/
theorem viewport_search_optimal (vp : Viewport) (modes : List Mode) :
    ((bestMode (targetSize vp) modes).isSome ↔ modes ≠ []) ∧
    ∀ label scale sc, bestMode (targetSize vp) modes = some (label, scale, sc) →
      ∃ before m after lower higher, modes = before ++ m :: after ∧
        viewportScales = lower ++ scale :: higher ∧ label = m.label ∧
        sc = score (targetSize vp) m scale ∧
        (∀ m' ∈ modes, ∀ scale' ∈ viewportScales,
          score (targetSize vp) m scale ≤ score (targetSize vp) m' scale') ∧
        (∀ m' ∈ before, ∀ scale' ∈ viewportScales,
          score (targetSize vp) m scale < score (targetSize vp) m' scale') ∧
        ∀ scale' ∈ lower, score (targetSize vp) m scale < score (targetSize vp) m scale' := by
  rw [bestMode_eq_argmin]
  constructor
  · rw [Option.isSome_map, Option.isSome_iff_ne_none, ne_eq, List.argmin_eq_none,
      modeScales_eq_nil]
  · intro label scale sc h
    obtain ⟨⟨m, scale⟩, hp, he⟩ := Option.map_eq_some_iff.1 h
    cases he
    have hmem := mem_modeScales.1 (List.argmin_mem hp)
    obtain ⟨before, after, rfl, hbefore⟩ := List.eq_append_cons_of_mem hmem.1
    obtain ⟨lower, higher, hscales, hlower⟩ := List.eq_append_cons_of_mem hmem.2
    refine ⟨before, m, after, lower, higher, rfl, hscales, rfl, rfl, ?_, ?_, ?_⟩
    · intro m' hm' scale' hs'
      have hin : (m', scale') ∈ modeScales (before ++ m :: after) := mem_modeScales.2 ⟨hm', hs'⟩
      have hle : pairScore (targetSize vp) (m, scale) ≤ pairScore (targetSize vp) (m', scale') :=
        List.le_of_mem_argmin hin hp
      exact hle
    · intro m' hm' scale' hs'
      have hnot : (m, scale) ∉ modeScales before := fun hin => hbefore (mem_modeScales.1 hin).1
      have hin : (m', scale') ∈ modeScales before := mem_modeScales.2 ⟨hm', hs'⟩
      rw [modeScales_append] at hp
      have hlt : pairScore (targetSize vp) (m, scale) < pairScore (targetSize vp) (m', scale') :=
        argmin_lt_of_prefix hp hnot hin
      exact hlt
    · intro scale' hs'
      -- the pairs before this one: those of the modes before, and this mode at the lower scales
      have hsplit : modeScales (before ++ m :: after) =
          (modeScales before ++ lower.map fun s => (m, s)) ++
            ((m, scale) :: higher.map (fun s => (m, s)) ++ modeScales after) := by
        rw [modeScales_append, modeScales_cons, hscales]
        simp
      have hnot : (m, scale) ∉ modeScales before ++ lower.map fun s => (m, s) := by
        intro hin
        rcases List.mem_append.1 hin with hin | hin
        · exact hbefore (mem_modeScales.1 hin).1
        · obtain ⟨s, hs, he⟩ := List.mem_map.1 hin
          cases he
          exact hlower hs
      have hin : (m, scale') ∈ modeScales before ++ lower.map fun s => (m, s) :=
        List.mem_append_right _ (List.mem_map_of_mem hs')
      rw [hsplit] at hp
      have hlt : pairScore (targetSize vp) (m, scale) < pairScore (targetSize vp) (m, scale') :=
        argmin_lt_of_prefix hp hnot hin
      exact hlt

def tabletViewport : Viewport := ⟨2560, 1600, 1280, 800, 2, "landscape"⟩

def laptopModes : List Mode := [
  { w := 2560, h := 1600, hz := 60, label := "2560x1600@60".toList },
  { w := 1920, h := 1200, hz := 60, label := "1920x1200@60".toList }]

/-- Both modes come out at the size of the tablet, at different scales; the first one is taken. -/
theorem viewport_search_tie :
    ∀ m ∈ laptopModes, ∀ scale ∈ viewportScales,
      3 / 5 ≤ score (targetSize tabletViewport) m scale := by
  have hbest : bestMode (targetSize tabletViewport) laptopModes =
      some ("2560x1600@60".toList, 2, 3 / 5) := by decide +kernel
  obtain ⟨_, _, _, _, _, -, -, -, hsc, hle, -⟩ :=
    (viewport_search_optimal tabletViewport laptopModes).2 _ _ _ hbest
  rw [hsc]
  exact hle

end DdrdeskHost
