import DdrdeskHost.Listing
import DdrdeskHost.ModeText

namespace DdrdeskHost
open Text
set_option autoImplicit true

inductive Rotation
  | none
  | right
  | inverted
  | left

def Rotation.code : Rotation → Str
  | none => "1".toList
  | right => "2".toList
  | inverted => "4".toList
  | left => "8".toList

def Rotation.word : Rotation → Str
  | none => "none".toList
  | right => "right".toList
  | inverted => "inverted".toList
  | left => "left".toList

def Rotation.codeWord (r : Rotation) : Word := .of r.code (by cases r <;> decide)

/-- The lines of a listing that are read. -/
inductive Label
  | output
  | modes
  | scale
  | rotation
  deriving DecidableEq

def Label.text : Label → Str
  | output => "Output:".toList
  | modes => "Modes:".toList
  | scale => "Scale:".toList
  | rotation => "Rotation:".toList

/-- A line that is not read. -/
structure Detail extends Line where
  plain : ∀ b : Label, ¬b.text <+: trim text

def Label.word (b : Label) : Word := .of b.text (by cases b <;> decide)

def Label.line (b : Label) (i : Indent) (ws : List Word) : Line := phraseLine i b.word ws

/-- What is read of the words of a line under the label; any other line gives `d`. -/
def Label.reads (b : Label) (f : List Str → β) (d : β) (line : Str) : β :=
  if b.text.isPrefixOf (trim line) then f (splitWhitespace (trim line)) else d

theorem Label.reads_line (b b' : Label) (f : List Str → β) (d : β) (i : Indent) (ws : List Word) :
    b.reads f d (b'.line i ws).text =
      if b = b' then f (b'.text :: ws.map Word.text) else d := by
  have htrim : trim (b'.line i ws).text = phrase b'.word ws := trim_phraseLine i b'.word ws
  have hb : b.text.isPrefixOf (phrase b'.word ws) = decide (b = b') := by
    cases b <;> cases b' <;> rfl
  rw [Label.reads, htrim, hb, splitWhitespace_phrase]
  simp only [decide_eq_true_eq]
  rfl

theorem Label.reads_detail (b : Label) (f : List Str → β) (x : β) (d : Detail) :
    b.reads f x d.text = x :=
  if_neg fun h => d.plain b (List.isPrefixOf_iff_prefix.1 h)

theorem nameWrite_eq : nameWrite =
    Label.output.reads (fun words => if 3 ≤ words.length then some words[2]? else none) none := by
  funext line
  exact ite_and ..

theorem modeWrite_eq : modeWrite =
    Label.modes.reads (fun words => (words.foldl currentMode none).map some) none := rfl

theorem scaleWrite_eq : scaleWrite = Label.scale.reads (fun words => some words[1]?) none := rfl

theorem rotationWrite_eq : rotationWrite = Label.rotation.reads
    (fun words => some (some (rotationWord (words[1]?.getD "1".toList)))) none := rfl

theorem lineModes_eq : lineModes =
    Label.modes.reads (fun words => words.tail.filterMap parseMode) [] := rfl

/-- An output as it is listed; other lines may stand between the ones that are read. -/
structure OutputListing where
  number : Word
  name : Word
  words : List Word
  indent : Indent
  status : List Detail
  before : List OtherMode
  current : ModeText
  mark : CurrentMark
  after : List OtherMode
  geometry : List Detail
  scale : Word
  rotation : Rotation
  rest : List Detail

namespace OutputListing
variable (l : OutputListing)

def modes : List ModeText :=
  l.before.map OtherMode.toModeText ++ l.current :: l.after.map OtherMode.toModeText

def modeWords : List Word :=
  l.before.map OtherMode.word ++ l.mark.word l.current :: l.after.map OtherMode.word

def wordsOf : Label → List Word
  | .output => l.number :: l.name :: l.words
  | .modes => l.modeWords
  | .scale => [l.scale]
  | .rotation => [l.rotation.codeWord]

def header : Line := Label.output.line ⟨[], by simp⟩ (l.wordsOf .output)

def line (b : Label) : Line := b.line l.indent (l.wordsOf b)

def lines : List Line :=
  l.header :: (l.status.map Detail.toLine ++ l.line .modes :: (l.geometry.map Detail.toLine ++
    l.line .scale :: l.line .rotation :: l.rest.map Detail.toLine))

def render : Str := unlines l.lines

theorem lastWrite_reads (b : Label) (f : List Str → Option β) :
    lastWrite (b.reads f none) (l.lines.map Line.text) =
      f (b.text :: (l.wordsOf b).map Word.text) := by
  have hds : ∀ ds : List Detail, lastWrite (b.reads f none) (ds.map fun d => d.text) = none := by
    intro ds
    apply lastWrite_eq_none
    intro s hs
    obtain ⟨d, -, rfl⟩ := List.mem_map.1 hs
    exact b.reads_detail f none d
  simp only [lines, header, line, List.map_cons, List.map_append, List.map_map, Function.comp_def,
    lastWrite_cons, lastWrite_append, hds, Label.reads_line]
  cases b <;> simp

theorem flatMap_reads (b : Label) (f : List Str → List β) :
    (l.lines.map Line.text).flatMap (b.reads f []) =
      f (b.text :: (l.wordsOf b).map Word.text) := by
  have hds : ∀ ds : List Detail, ds.flatMap (fun d => b.reads f [] d.text) = [] := by
    intro ds
    rw [List.flatMap_eq_nil_iff]
    intro d hd
    exact b.reads_detail f [] d
  simp only [lines, header, line, List.map_cons, List.map_append, List.map_map, Function.comp_def,
    List.flatMap_cons, List.flatMap_append, List.flatMap_map, hds, Label.reads_line]
  cases b <;> simp

theorem name_lines : lastWrite nameWrite (l.lines.map Line.text) = some (some l.name.text) := by
  rw [nameWrite_eq, lastWrite_reads]
  simp [wordsOf]

theorem scale_lines : lastWrite scaleWrite (l.lines.map Line.text) = some (some l.scale.text) := by
  rw [scaleWrite_eq, lastWrite_reads]
  rfl

theorem rotationWord_code (r : Rotation) : rotationWord r.code = r.word := by
  cases r <;> decide

theorem rotation_lines :
    lastWrite rotationWrite (l.lines.map Line.text) = some (some l.rotation.word) := by
  rw [rotationWrite_eq, lastWrite_reads, ← rotationWord_code]
  rfl

theorem foldl_others (os : List OtherMode) (mode : Option Str) :
    ((os.map OtherMode.word).map Word.text).foldl currentMode mode = mode := by
  induction os with
  | nil => rfl
  | cons o os ih =>
    have ho : currentMode mode o.word.text = mode := o.currentMode mode
    rw [List.map_cons, List.map_cons, List.foldl_cons, ho, ih]

theorem mode_lines :
    lastWrite modeWrite (l.lines.map Line.text) = some (some l.current.label) := by
  have hlabel : currentMode none Label.modes.text = none := currentMode_other (by decide) none
  have hcurrent : ∀ mode, currentMode mode (l.mark.word l.current).text = some l.current.label :=
    currentMode_current l.current l.mark
  rw [modeWrite_eq, lastWrite_reads, List.foldl_cons, hlabel, wordsOf, modeWords, List.map_append,
    List.foldl_append, foldl_others, List.map_cons, List.foldl_cons, hcurrent, foldl_others]
  rfl

theorem parsePrimary_render : parsePrimary l.render =
    some ⟨l.name.text, l.current.label, l.scale.text, l.rotation.word⟩ := by
  simp only [parsePrimary_eq, render, lines_unlines, outputOf, setting, l.name_lines, l.mode_lines,
    l.scale_lines, l.rotation_lines]
  rfl

theorem parseMode_words :
    (l.modeWords.map Word.text).filterMap parseMode = l.modes.map ModeText.mode := by
  have hother : ∀ o : OtherMode, parseMode o.word.text = some o.toModeText.mode :=
    fun o => o.toModeText.parseMode_word _ _
  have hcurrent : parseMode (l.mark.word l.current).text = some l.current.mode :=
    l.current.parseMode_word _ _
  simp only [modeWords, modes, List.map_append, List.map_cons, List.map_map, List.filterMap_append,
    List.filterMap_cons, List.filterMap_map, Function.comp_def, hother, hcurrent,
    List.filterMap_eq_map']

theorem parseModes_render : parseModes l.render = l.modes.map ModeText.mode := by
  rw [parseModes_eq, render, lines_unlines, lineModes_eq, l.flatMap_reads]
  exact l.parseMode_words

end OutputListing

/-- What is parsed of a listing with one output is what was rendered, and the mode that is saved is
one of those offered. -/
theorem listing_parses_back (l : OutputListing) :
    parsePrimary l.render =
        some ⟨l.name.text, l.current.label, l.scale.text, l.rotation.word⟩ ∧
      parseModes l.render = l.modes.map ModeText.mode ∧
      ∀ s, parsePrimary l.render = some s → s.mode ∈ (parseModes l.render).map Mode.label := by
  refine ⟨l.parsePrimary_render, l.parseModes_render, ?_⟩
  intro s hs
  rw [l.parsePrimary_render, Option.some.injEq] at hs
  rw [l.parseModes_render, ← hs, List.map_map]
  apply List.mem_map_of_mem (f := Mode.label ∘ ModeText.mode)
  exact List.mem_append_right _ List.mem_cons_self

def tab : Indent where
  text := ['\t']
  blank c hc := by rw [List.mem_singleton.1 hc]; decide

/-- The panel at the second of its modes; its first one is marked as preferred. -/
def panelListing : OutputListing where
  number := .of "1".toList (by decide)
  name := .of "eDP-1".toList (by decide)
  words := []
  indent := tab
  status := [⟨⟨"\tenabled".toList, by decide, by decide⟩, by intro b; cases b <;> decide⟩]
  before := [⟨.ofNumbers 1 1920 1200 ⟨.ofNat 60, none⟩, true⟩]
  current := .ofNumbers 2 1920 1200 ⟨.ofNat 59, some (.ofNat 94)⟩
  mark := .star
  after := []
  geometry := []
  scale := .of "1.25".toList (by decide)
  rotation := .right
  rest := []

def panelListingText : Str :=
  ("Output: 1 eDP-1\n\tenabled\n\tModes: 1:1920x1200@60! 2:1920x1200@59.94*\n" ++
    "\tScale: 1.25\n\tRotation: 2\n").toList

theorem listing_parses_back_panel : parsePrimary panelListingText =
    some ⟨"eDP-1".toList, "1920x1200@59.94".toList, "1.25".toList, "right".toList⟩ := by
  have hrender : panelListing.render = panelListingText := by decide +kernel
  rw [← hrender]
  exact (listing_parses_back panelListing).1

end DdrdeskHost
