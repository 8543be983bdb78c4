import DdrdeskHost.Lib.Text
import DdrdeskHost.Proto
import Mathlib.Data.Rat.Floor

namespace DdrdeskHost
open Text
set_option autoImplicit true

structure SavedOutput where
  name : Str
  mode : Str
  scale : Str
  rotation : Str
  deriving DecidableEq

/-- The Plasma session and `kscreen-doctor`: whether there is one, the listing of `-o`, what a call
with settings does, and what the file holds after it is written. -/
structure Kscreen (W : Type) where
  live : W → Bool
  list : W → Option Str
  exec : List Str → W → W
  persist : W → SavedOutput → Option SavedOutput → Option SavedOutput

/-- The display code's state: the world, `SAVED`, and what `saved-output.json` reads as. -/
structure Display (W : Type) where
  world : W
  saved : Option SavedOutput := none
  file : Option SavedOutput := none
  deriving DecidableEq

/-- One setting of an output, as `kscreen-doctor` takes it. -/
inductive Setting
  | mode (m : Str)
  | scale (s : Str)
  | rotation (r : Str)
  deriving DecidableEq

def Setting.spec (name : Str) : Setting → Str
  | mode m => "output.".toList ++ name ++ ".mode.".toList ++ m
  | scale s => "output.".toList ++ name ++ ".scale.".toList ++ s
  | rotation r => "output.".toList ++ name ++ ".rotation.".toList ++ r

/-- What a setting makes of an output's configuration. -/
def SavedOutput.set (s : SavedOutput) : Setting → SavedOutput
  | .mode m => { s with mode := m }
  | .scale c => { s with scale := c }
  | .rotation r => { s with rotation := r }

/-- The text of a scale in quarters. -/
def scaleText (q : ℚ) : Str :=
  let quarters := ⌊q * 4⌋.toNat
  Nat.toDigits 10 (quarters / 4) ++
    match quarters % 4 with
    | 0 => []
    | 1 => ".25".toList
    | 2 => ".5".toList
    | _ => ".75".toList

def geometryOf (t : Str) : Option (Nat × Nat) := do
  let rest ← stripPrefix "Geometry:".toList t
  let wh ← (splitWhitespace rest)[1]?
  let (w, h) ← splitOnce 'x' wh
  let w ← parseU32 w
  let h ← parseU32 h
  some (max w 1, max h 1)

def logicalSize (K : Kscreen W) (w : W) : Nat × Nat :=
  match K.list w with
  | none => (1920, 1200)
  | some text => ((lines text).findSome? fun l => geometryOf (trim l)).getD (1920, 1200)

/-- A mode's text behind its number, if it has one. -/
def afterColon (s : Str) : Str := ((s.splitOn ':')[1]?).getD s

def dropMarks (tok : Str) : Str := remove '!' (remove '*' (removePair '!' '*' tok))

/-- What a token of a `Modes:` line makes of the current mode. -/
def currentMode (mode : Option Str) (tok : Str) : Option Str :=
  match stripSuffix "!*".toList tok with
  | some stripped => some (afterColon stripped)
  | none =>
    match stripSuffix ['*'] tok with
    | some stripped =>
      if stripped.contains 'x' then some ((afterColon stripped).rdropWhile (· = '!')) else mode
    | none =>
      if containsPair '!' '*' tok || (['*'].isSuffixOf tok || containsPair '*' '!' tok) then
        match splitOnce ':' (dropMarks tok) with
        | some (_, m) => some m
        | none => mode
      else mode

def rotationWord (r : Str) : Str :=
  if r = "1".toList then "none".toList
  else if r = "2".toList then "right".toList
  else if r = "4".toList then "inverted".toList
  else if r = "8".toList then "left".toList
  else "none".toList

/-- The fields found so far by `parse_primary`. -/
structure Fields where
  name : Option Str := none
  mode : Option Str := none
  scale : Option Str := none
  rotation : Option Str := none

def Fields.line (f : Fields) (line : Str) : Fields :=
  let t := trim line
  let words := splitWhitespace t
  let f := if "Output:".toList.isPrefixOf t ∧ 3 ≤ words.length
    then { f with name := words[2]? } else f
  let f := if "Modes:".toList.isPrefixOf t
    then { f with mode := words.foldl currentMode f.mode } else f
  let f := if "Scale:".toList.isPrefixOf t then { f with scale := words[1]? } else f
  if "Rotation:".toList.isPrefixOf t
    then { f with rotation := some (rotationWord (words[1]?.getD "1".toList)) } else f

def parsePrimary (output : Str) : Option SavedOutput :=
  let f := (lines output).foldl Fields.line {}
  f.name.map fun name =>
    { name := name, mode := f.mode.getD [], scale := f.scale.getD "1".toList,
      rotation := f.rotation.getD "none".toList }

/-- A listed mode: its size, its refresh rate and its text. -/
structure Mode where
  w : Nat
  h : Nat
  hz : ℚ
  label : Str
  deriving DecidableEq

def parseMode (tok : Str) : Option Mode := do
  let label := afterColon (dropMarks tok)
  let (wh, hz) ← splitOnce '@' label
  let (w, h) ← splitOnce 'x' wh
  let w ← parseU32 w
  let h ← parseU32 h
  let hz ← parseF32 hz
  some { w := w, h := h, hz := hz, label := label }

def parseModes (output : Str) : List Mode :=
  (lines output).flatMap fun line =>
    let t := trim line
    if "Modes:".toList.isPrefixOf t then (splitWhitespace t).tail.filterMap parseMode else []

/-- Largest even size within the bounds that keeps the shape, and no smaller than 640x360. -/
def fitEven (w h maxW maxH : Nat) : Nat × Nat :=
  let w := max w 2
  let h := max h 2
  let s := min (min ((maxW : ℚ) / w) (maxH / h)) 1
  let w := ⌊w * s⌋.toNat / 2 * 2
  let h := ⌊h * s⌋.toNat / 2 * 2
  (max w 640, max h 360)

def encodeSize (K : Kscreen W) (w : W) : Nat × Nat :=
  let (sw, sh) := logicalSize K w
  fitEven (max sw 640) (max sh 400) 1280 800

/-- The logical size that suits the client. -/
def targetSize (vp : Viewport) : ℚ × ℚ :=
  let portrait := eqIgnoreAsciiCase vp.orientation.toList "portrait".toList ∨ vp.w < vp.h
  let ptsW := if vp.pointsW > 1 then vp.pointsW else vp.w.toNat / max vp.scale 1
  let ptsH := if vp.pointsH > 1 then vp.pointsH else vp.h.toNat / max vp.scale 1
  let longPts := max ptsW ptsH
  if portrait then (max longPts 800, max (max longPts 800 * 10 / 16) 500)
  else (max ptsW 800, max ptsH 500)

def viewportScales : List ℚ := [1, 5 / 4, 3 / 2, 7 / 4, 2, 9 / 4, 5 / 2, 3]

def score (target : ℚ × ℚ) (m : Mode) (scale : ℚ) : ℚ :=
  |m.w / scale - target.1| + |m.h / scale - target.2| + (120 - m.hz) / 100

/-- Take the pair when its score is less than the best so far. -/
def tryScale (target : ℚ × ℚ) (m : Mode) (best : Option (Str × ℚ × ℚ)) (scale : ℚ) :
    Option (Str × ℚ × ℚ) :=
  let sc := score target m scale
  if best.all fun b => decide (sc < b.2.2) then some (m.label, scale, sc) else best

/-- The first mode and scale of least score. -/
def bestMode (target : ℚ × ℚ) (modes : List Mode) : Option (Str × ℚ × ℚ) :=
  modes.foldl (fun best m => viewportScales.foldl (tryScale target m) best) none

def uiScales : List ℚ := [1, 5 / 4, 3 / 2, 7 / 4, 2, 9 / 4, 5 / 2, 11 / 4, 3]

/-- The first of the nearest steps. -/
def snapScale (v : ℚ) : ℚ :=
  match uiScales with
  | [] => 3 / 2
  | x :: xs => xs.foldl (fun best x => if |x - v| < |best - v| then x else best) x

section
variable (K : Kscreen W)

/-- The listing that `save_current` parses. -/
def currentOutput (w : W) : Option SavedOutput :=
  if K.live w then (K.list w).bind parsePrimary else none

/-- The file is written first, `SAVED` after it; an error saves nothing. -/
def saveCurrent (d : Display W) : Display W :=
  match currentOutput K d.world with
  | none => d
  | some s => { d with file := K.persist d.world s d.file, saved := some s }

def restoreSettings (s : SavedOutput) : List Setting :=
  [.mode s.mode, .scale s.scale, .rotation s.rotation]

def runSettings (name : Str) (settings : List Setting) (d : Display W) : Display W :=
  { d with world := K.exec (settings.map (·.spec name)) d.world }

def restore (d : Display W) : Display W :=
  match d.saved.or d.file with
  | none => d
  | some s => if K.live d.world then runSettings K s.name (restoreSettings s) d else d

/-- The settings that `apply_viewport` asks for. -/
def viewportSettings (vp : Viewport) (out : Str) : List Setting :=
  match bestMode (targetSize vp) (parseModes out) with
  | none => []
  | some (mode, scale, _) => [.mode mode, .scale (scaleText scale)]

def applySettings (name : Str) (settings : List Setting) (d : Display W) : Display W :=
  if settings = [] then d else runSettings K name settings d

/-- The output's name and the listing it is found in, once the session is live. -/
def primaryListing (w : W) : Option (Str × Str) :=
  if K.live w then
    (K.list w).bind fun out => (parsePrimary out).map fun primary => (primary.name, out)
  else none

def applyViewport (vp : Viewport) (d : Display W) : Display W × (Nat × Nat) :=
  let enc := encodeSize K d.world
  match primaryListing K d.world with
  | none => (d, enc)
  | some (name, out) =>
    let d := if d.saved.isNone then saveCurrent K d else d
    (applySettings K name (viewportSettings vp out) d, enc)

/-- The name of the saved output, or else of the listed one. -/
def outputName (d : Display W) : Option Str :=
  (d.saved.map (·.name)).or (((K.list d.world).bind parsePrimary).map (·.name))

def applyUiScale (factor : ℚ) (d : Display W) : Display W :=
  let factor := snapScale (min (max factor 1) 3)
  if K.live d.world then
    let d := if d.saved.isNone then saveCurrent K d else d
    match outputName K d with
    | none => d
    | some name => runSettings K name [.scale (scaleText factor)] d
  else d

end

end DdrdeskHost
