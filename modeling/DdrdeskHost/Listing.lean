import DdrdeskHost.Display
import DdrdeskHost.Lib.LastWrite

namespace DdrdeskHost
open Text
set_option autoImplicit true

/-- The line names an output. -/
def IsOutput (line : Str) : Prop :=
  "Output:".toList.isPrefixOf (trim line) ∧ 3 ≤ (splitWhitespace (trim line)).length

instance (line : Str) : Decidable (IsOutput line) := inferInstanceAs (Decidable (_ ∧ _))

/-- What a line sets each field to, if it sets it. -/
def nameWrite (line : Str) : Option (Option Str) :=
  let words := splitWhitespace (trim line)
  if "Output:".toList.isPrefixOf (trim line) ∧ 3 ≤ words.length then some words[2]? else none

def modeWrite (line : Str) : Option (Option Str) :=
  if "Modes:".toList.isPrefixOf (trim line) then
    ((splitWhitespace (trim line)).foldl currentMode none).map some
  else none

def scaleWrite (line : Str) : Option (Option Str) :=
  if "Scale:".toList.isPrefixOf (trim line) then some (splitWhitespace (trim line))[1]? else none

def rotationWrite (line : Str) : Option (Option Str) :=
  if "Rotation:".toList.isPrefixOf (trim line) then
    some (some (rotationWord ((splitWhitespace (trim line))[1]?.getD "1".toList)))
  else none

/-- The modes that a line lists. -/
def lineModes (line : Str) : List Mode :=
  if "Modes:".toList.isPrefixOf (trim line) then
    (splitWhitespace (trim line)).tail.filterMap parseMode
  else []

theorem parseModes_eq (text : Str) : parseModes text = (lines text).flatMap lineModes := rfl

theorem currentMode_eq (mode : Option Str) (tok : Str) :
    currentMode mode tok = (currentMode none tok).or mode := by
  unfold currentMode
  repeat' split
  all_goals rfl

theorem foldl_currentMode (toks : List Str) (mode : Option Str) :
    toks.foldl currentMode mode = (toks.foldl currentMode none).or mode := by
  induction toks generalizing mode with
  | nil => rfl
  | cons tok toks ih =>
    rw [List.foldl_cons, List.foldl_cons, ih, ih (currentMode none tok), currentMode_eq mode,
      Option.or_assoc]

theorem Fields.line_name (f : Fields) (line : Str) :
    (f.line line).name = (nameWrite line).getD f.name := by
  simp only [Fields.line, nameWrite]
  repeat' split
  all_goals rfl

theorem Fields.line_mode (f : Fields) (line : Str) :
    (f.line line).mode = (modeWrite line).getD f.mode := by
  have hline : (f.line line).mode = if "Modes:".toList.isPrefixOf (trim line) then
      (splitWhitespace (trim line)).foldl currentMode f.mode else f.mode := by
    simp only [Fields.line]
    repeat' split
    all_goals rfl
  rw [hline, modeWrite]
  split
  · rw [foldl_currentMode]
    cases (splitWhitespace (trim line)).foldl currentMode none <;> rfl
  · rfl

theorem Fields.line_scale (f : Fields) (line : Str) :
    (f.line line).scale = (scaleWrite line).getD f.scale := by
  simp only [Fields.line, scaleWrite]
  repeat' split
  all_goals rfl

theorem Fields.line_rotation (f : Fields) (line : Str) :
    (f.line line).rotation = (rotationWrite line).getD f.rotation := by
  simp only [Fields.line, rotationWrite]
  repeat' split
  all_goals rfl

/-- What the lines set a field to, or else its default. -/
def setting (w : Str → Option (Option Str)) (d : Str) (ls : List Str) : Str :=
  ((lastWrite w ls).getD none).getD d

/-- What these lines alone say of an output of this name. -/
def outputOf (name : Str) (ls : List Str) : SavedOutput :=
  { name := name, mode := setting modeWrite [] ls, scale := setting scaleWrite "1".toList ls,
    rotation := setting rotationWrite "none".toList ls }

theorem parsePrimary_eq (text : Str) : parsePrimary text =
    ((lastWrite nameWrite (lines text)).getD none).map fun name => outputOf name (lines text) := by
  have hname := foldl_lastWrite Fields.line_name (lines text) {}
  have hmode := foldl_lastWrite Fields.line_mode (lines text) {}
  have hscale := foldl_lastWrite Fields.line_scale (lines text) {}
  have hrotation := foldl_lastWrite Fields.line_rotation (lines text) {}
  simp only [parsePrimary, hname, hmode, hscale, hrotation]
  rfl

/-- An output of a listing: the line that names it, and the lines that follow. -/
structure Block where
  header : Str
  body : List Str
  isOutput : IsOutput header
  notOutput : ∀ l ∈ body, ¬IsOutput l

namespace Block

def lines (b : Block) : List Str := b.header :: b.body

def name (b : Block) : Str := ((splitWhitespace (trim b.header))[2]?).getD []

/-- The output that the block describes. -/
def output (b : Block) : SavedOutput := outputOf b.name b.lines

theorem lastWrite_name (b : Block) : lastWrite nameWrite b.lines = some (some b.name) := by
  have hbody : lastWrite nameWrite b.body = none := by
    apply lastWrite_eq_none
    intro l hl
    exact if_neg (b.notOutput l hl)
  have hlen := b.isOutput.2
  have hheader : nameWrite b.header = some (some b.name) := by
    have hwrite : nameWrite b.header = some (splitWhitespace (trim b.header))[2]? :=
      if_pos b.isOutput
    rw [hwrite, name, List.getElem?_eq_getElem hlen, Option.getD_some]
  rw [lines, lastWrite_cons, hbody, hheader]
  rfl

end Block

/-- What the last block that sets a field sets it to, or else its default. -/
def latest (w : Str → Option (Option Str)) (d : Str) (bs : List Block) : Str :=
  ((lastWrite (fun b => lastWrite w b.lines) bs).getD none).getD d

/-- The block is named like the last one, and has each of the other values, or lacks it, like the
last block that sets it. -/
structure Agrees (bs : List Block) (b : Block) : Prop where
  name : ∀ l ∈ bs.getLast?, l.name = b.name
  mode : latest modeWrite [] bs = setting modeWrite [] b.lines
  scale : latest scaleWrite "1".toList bs = setting scaleWrite "1".toList b.lines
  rotation : latest rotationWrite "none".toList bs = setting rotationWrite "none".toList b.lines

theorem setting_flatMap (w : Str → Option (Option Str)) (d : Str) (bs : List Block) :
    setting w d (bs.flatMap Block.lines) = latest w d bs := by
  rw [setting, lastWrite_flatMap]
  rfl

theorem lastWrite_name_blocks (bs : List Block) :
    (lastWrite nameWrite (bs.flatMap Block.lines)).getD none = bs.getLast?.map Block.name := by
  rw [lastWrite_flatMap]
  cases bs using List.reverseRecOn with
  | nil => rfl
  | append_singleton bs b =>
    rw [lastWrite_concat, b.lastWrite_name, List.getLast?_concat]
    rfl

theorem parsePrimary_blocks {bs : List Block} (h : lines text = bs.flatMap Block.lines) :
    parsePrimary text = bs.getLast?.map fun l =>
      { name := l.name, mode := latest modeWrite [] bs, scale := latest scaleWrite "1".toList bs,
        rotation := latest rotationWrite "none".toList bs } := by
  rw [parsePrimary_eq, h, lastWrite_name_blocks, Option.map_map]
  simp only [Function.comp_def, outputOf, setting_flatMap]

/-- What is parsed of a listing is one of its outputs if and only if some block agrees, in all of
its fields, with the last blocks that set them. -/
theorem parse_primary_one_output (text : Str) (bs : List Block)
    (h : lines text = bs.flatMap Block.lines) :
    (∀ s, parsePrimary text = some s → ∃ b ∈ bs, b.output = s) ↔
      bs = [] ∨ ∃ b ∈ bs, Agrees bs b := by
  rw [parsePrimary_blocks h]
  cases hl : bs.getLast? with
  | none => simp [List.getLast?_eq_none_iff.1 hl]
  | some l =>
    have hne : bs ≠ [] := by
      intro hnil
      rw [hnil] at hl
      cases hl
    simp only [Option.map_some, Option.some.injEq, forall_eq', hne, false_or]
    apply exists_congr
    intro b
    apply and_congr_right
    intro _
    constructor
    · intro he
      obtain ⟨hname, hmode, hscale, hrotation⟩ := SavedOutput.mk.inj he
      have hlast : ∀ l' ∈ bs.getLast?, l'.name = b.name := by
        intro l' hl'
        cases hl.symm.trans hl'
        exact hname.symm
      exact ⟨hlast, hmode.symm, hscale.symm, hrotation.symm⟩
    · intro ha
      rw [ha.name l hl, ha.mode, ha.scale, ha.rotation]
      rfl

/-- An enabled panel, and a monitor that is switched off: none of its modes is marked. -/
def panel : Block where
  header := "Output: 1 eDP-1".toList
  body := ["Modes: 1:1920x1200@60!* 2:1280x800@60".toList, "Scale: 1.25".toList,
    "Rotation: 1".toList]
  isOutput := by decide +kernel
  notOutput := by decide +kernel

def monitor : Block where
  header := "Output: 2 HDMI-A-1".toList
  body := ["Modes: 1:1920x1080@60".toList]
  isOutput := by decide +kernel
  notOutput := by decide +kernel

def panelText : Str :=
  "Output: 1 eDP-1\nModes: 1:1920x1200@60!* 2:1280x800@60\nScale: 1.25\nRotation: 1\n".toList

def monitorText : Str := "Output: 2 HDMI-A-1\nModes: 1:1920x1080@60\n".toList

/-- With the monitor listed last, the panel's mode and scale are saved under the monitor's name. -/
theorem parse_primary_mixes_outputs :
    ¬∀ (text : Str) (bs : List Block), lines text = bs.flatMap Block.lines →
      ∀ s, parsePrimary text = some s → ∃ b ∈ bs, b.output = s := by
  intro h
  have hs : parsePrimary (panelText ++ monitorText) =
      some ⟨"HDMI-A-1".toList, "1920x1200@60".toList, "1.25".toList, "none".toList⟩ := by
    decide +kernel
  obtain ⟨b, hb, he⟩ := h (panelText ++ monitorText) [panel, monitor] (by decide +kernel) _ hs
  have hscale := congrArg SavedOutput.scale he
  have hname := congrArg SavedOutput.name he
  rcases List.mem_cons.1 hb with rfl | hb
  · exact absurd hname (by decide +kernel)
  · rw [List.mem_singleton.1 hb] at hscale
    exact absurd hscale (by decide +kernel)

/-- With the panel listed last, it is the panel that is saved. -/
theorem parse_primary_one_output_panel :
    ∃ b ∈ [monitor, panel],
      b.output = ⟨"eDP-1".toList, "1920x1200@60".toList, "1.25".toList, "none".toList⟩ :=
  (parse_primary_one_output (monitorText ++ panelText) [monitor, panel] (by decide +kernel)).2
    (.inr ⟨panel, by simp, by decide +kernel, by decide +kernel, by decide +kernel,
      by decide +kernel⟩) _ (by decide +kernel)

end DdrdeskHost
