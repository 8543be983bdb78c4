import DdrdeskHost.Keyboard
import DdrdeskHost.Lib.Hex
import Mathlib.Data.Finset.Basic

namespace DdrdeskHost
open Text
set_option autoImplicit true

/-- What a key types: a character, or the deletion of the one before it. -/
inductive Typed
  | char (c : Char)
  | backspace
  deriving DecidableEq

/-- The keys of the US layout, each with its character without and with Shift. -/
def usLayout : List (Key × Char × Char) := [
  (.key1, '1', '!'), (.key2, '2', '@'), (.key3, '3', '#'), (.key4, '4', '$'), (.key5, '5', '%'),
  (.key6, '6', '^'), (.key7, '7', '&'), (.key8, '8', '*'), (.key9, '9', '('), (.key0, '0', ')'),
  (.keyMinus, '-', '_'), (.keyEqual, '=', '+'), (.keyQ, 'q', 'Q'), (.keyW, 'w', 'W'),
  (.keyE, 'e', 'E'), (.keyR, 'r', 'R'), (.keyT, 't', 'T'), (.keyY, 'y', 'Y'), (.keyU, 'u', 'U'),
  (.keyI, 'i', 'I'), (.keyO, 'o', 'O'), (.keyP, 'p', 'P'), (.keyLeftbrace, '[', '\x7b'),
  (.keyRightbrace, ']', '\x7d'), (.keyBackslash, '\x5c', '|'), (.keyA, 'a', 'A'),
  (.keyS, 's', 'S'), (.keyD, 'd', 'D'), (.keyF, 'f', 'F'), (.keyG, 'g', 'G'), (.keyH, 'h', 'H'),
  (.keyJ, 'j', 'J'), (.keyK, 'k', 'K'), (.keyL, 'l', 'L'), (.keySemicolon, ';', ':'),
  (.keyApostrophe, '\x27', '\x22'), (.keyGrave, '\x60', '~'), (.keyZ, 'z', 'Z'),
  (.keyX, 'x', 'X'), (.keyC, 'c', 'C'), (.keyV, 'v', 'V'), (.keyB, 'b', 'B'), (.keyN, 'n', 'N'),
  (.keyM, 'm', 'M'), (.keyComma, ',', '<'), (.keyDot, '.', '>'), (.keySlash, '/', '?'),
  (.keySpace, ' ', ' '), (.keyTab, '\t', '\t'), (.keyEnter, '\n', '\n')]

def typedBy (k : Key) (shift : Bool) : Option Typed :=
  if k = .keyBackspace then some .backspace
  else (usLayout.lookup k).map fun p => .char (if shift then p.2 else p.1)

/-- The code point that was entered. -/
def codePoint (ds : Str) : Option Char :=
  (parseHex ds).bind fun n => if n.isValidChar then some (Char.ofNat n) else none

/-- A reader of the keyboard: the keys that are held, the digits of an entry by code point while
there is one, and what was typed. -/
structure KeyReader where
  held : Finset Key := ∅
  entry : Option Str := none
  typed : List Typed := []

namespace KeyReader

def ctrl (r : KeyReader) : Bool := .keyLeftctrl ∈ r.held

def shift (r : KeyReader) : Bool := .keyLeftshift ∈ r.held ∨ .keyRightshift ∈ r.held

def command (r : KeyReader) : Bool :=
  r.ctrl ∨ ∃ k ∈ [Key.keyLeftalt, .keyRightalt, .keyLeftmeta, .keyRightmeta], k ∈ r.held

/-- Ctrl+Shift+U starts an entry, Enter ends it, and only digits belong to it; a key with Ctrl, Alt
or Meta is a command and types nothing. -/
def press (r : KeyReader) (k : Key) : Option KeyReader :=
  match r.entry with
  | some ds =>
    if k = .keyEnter then
      (codePoint ds).map fun c => { r with entry := none, typed := r.typed ++ [.char c] }
    else
      match typedBy k r.shift with
      | some (.char c) => (hexDigit c).map fun _ => { r with entry := some (ds ++ [c]) }
      | _ => none
  | none =>
    if k = .keyU ∧ r.ctrl ∧ r.shift then some { r with entry := some [] }
    else if r.command then some r
    else some { r with typed := r.typed ++ (typedBy k r.shift).toList }

/-- Read an event; a held key is not pressed and a key that is up is not released. -/
def read (r : KeyReader) : KeyEvent → Option KeyReader
  | .key k true =>
    if k ∈ r.held then none
    else (r.press k).map fun r' => { r' with held := insert k r.held }
  | .key k false => if k ∈ r.held then some { r with held := r.held.erase k } else none
  | .syn => some r

end KeyReader

/-- A typed character as it arrives. -/
def arrival (c : Char) : Typed :=
  if c = '\r' then .char '\n'
  else if c = '\x08' ∨ c = '\x7f' then .backspace
  else .char c

theorem asciiKey_lt (h : asciiKey c = some p) : c.toNat < 128 := by
  unfold asciiKey at h
  split at h
  · next hc => exact lt_of_le_of_lt (Char.le_def.1 hc.2) (by decide)
  · split at h
    · next hc => exact lt_of_le_of_lt (Char.le_def.1 hc.2) (by decide)
    · split at h
      case h_44 => cases h
      all_goals decide

theorem typedBy_ascii : ∀ n < 128, ∀ p ∈ asciiKey (Char.ofNat n),
    typedBy p.1 p.2 = some (arrival (Char.ofNat n)) := by
  decide +kernel

theorem typedBy_asciiKey (h : asciiKey c = some p) : typedBy p.1 p.2 = some (arrival c) := by
  have hc := typedBy_ascii c.toNat (asciiKey_lt h)
  rw [Char.ofNat_toNat] at hc
  exact hc p h

theorem digitChar_key : ∀ d < 16, ∃ k ∈ allKeys, k ≠ .keyEnter ∧
    asciiKey d.digitChar = some (k, false) ∧ typedBy k false = some (.char d.digitChar) := by
  decide +kernel

theorem codePoint_toDigits (c : Char) : codePoint (Nat.toDigits 16 c.toNat) = some c := by
  have hvalid : c.toNat.isValidChar := c.valid
  rw [codePoint, parseHex_toDigits, Option.bind_some, if_pos hvalid, Char.ofNat_toNat]

namespace KeyReader

theorem held_of_press (h : press r k = some r') : r'.held = r.held := by
  unfold press at h
  split at h
  · split at h
    · obtain ⟨c, -, rfl⟩ := Option.map_eq_some_iff.1 h
      rfl
    · split at h
      · obtain ⟨c, -, rfl⟩ := Option.map_eq_some_iff.1 h
        rfl
      · cases h
  · split at h
    · cases h
      rfl
    · split at h <;> cases h <;> rfl

theorem read_stroke (hk : k ∉ r.held) (h : press r k = some r') :
    [.key k true, .syn, .key k false].foldlM read r = some r' := by
  have hheld : (insert k r.held).erase k = r'.held := by
    rw [Finset.erase_insert hk, held_of_press h]
  simp [read, hk, h, hheld]

theorem read_tap (hk : k ∉ r.held) (h : press r k = some r') :
    (Injector.tap k false).foldlM read r = some r' := by
  have htap : Injector.tap k false = [.key k true, .syn, .key k false] ++ [.syn] := rfl
  rw [htap, List.foldlM_append, read_stroke hk h]
  rfl

theorem read_plain_tap (h : typedBy k false = some x) (out : List Typed) :
    (Injector.tap k false).foldlM read { typed := out } = some { typed := out ++ [x] } := by
  apply read_tap (Finset.notMem_empty k)
  simp [press, ctrl, shift, command, h]

theorem read_shift_tap (h : typedBy k true = some x) (out : List Typed) :
    (Injector.tap k true).foldlM read { typed := out } = some { typed := out ++ [x] } := by
  have hne : k ≠ .keyLeftshift := by
    rintro rfl
    cases h
  have htap : Injector.tap k true = [.key .keyLeftshift true] ++
      [.key k true, .syn, .key k false] ++ [.key .keyLeftshift false, .syn] := rfl
  have hdown : read { typed := out } (.key .keyLeftshift true) =
      some { held := {.keyLeftshift}, typed := out } := by
    have hnone : typedBy .keyLeftshift false = none := rfl
    simp [read, press, ctrl, shift, command, hnone]
  have hstroke : [.key k true, .syn, .key k false].foldlM read
      { held := {.keyLeftshift}, typed := out } =
        some { held := {.keyLeftshift}, typed := out ++ [x] } := by
    apply read_stroke (by simpa using hne)
    simp [press, ctrl, shift, command, h]
  rw [htap, List.foldlM_append, List.foldlM_append, List.foldlM_cons, hdown]
  simp only [List.foldlM_nil, Option.bind_eq_bind, Option.bind_some, pure, hstroke]
  simp [read]

theorem read_digits {s : Str} (hs : ∀ c ∈ s, ∃ d < 16, c = d.digitChar) (ds : Str)
    (out : List Typed) :
    (s.flatMap fun h => (asciiKey h).elim [] fun k => Injector.tap k.1 false).foldlM read
      { entry := some ds, typed := out } =
        some { entry := some (ds ++ s), typed := out : KeyReader } := by
  induction s generalizing ds with
  | nil => simp
  | cons c s ih =>
    rw [List.forall_mem_cons] at hs
    obtain ⟨⟨d, hd, rfl⟩, hs⟩ := hs
    obtain ⟨k, -, hne, hk, ht⟩ := digitChar_key d hd
    have hpress : press { entry := some ds, typed := out } k =
        some { entry := some (ds ++ [d.digitChar]), typed := out } := by
      simp [press, hne, shift, ht, hexDigit_digitChar d hd]
    rw [List.flatMap_cons, List.foldlM_append, hk, Option.elim_some,
      read_tap (Finset.notMem_empty k) hpress, Option.bind_eq_bind, Option.bind_some, ih hs,
      List.append_assoc, List.singleton_append]

/-- The keys that start an entry. -/
def chord : Finset Key := {.keyLeftshift, .keyLeftctrl}

theorem read_chord_down (out : List Typed) :
    [KeyEvent.key .keyLeftctrl true, .key .keyLeftshift true, .syn].foldlM read { typed := out } =
      some { held := chord, typed := out } := by
  have hctrl : typedBy .keyLeftctrl false = none := rfl
  simp [read, press, ctrl, shift, command, hctrl, chord]

theorem read_chord_tap (out : List Typed) :
    (Injector.tap .keyU false).foldlM read { held := chord, typed := out } =
      some { held := chord, entry := some [], typed := out } := by
  have hu : Key.keyU ∉ chord := by decide
  apply read_tap hu
  simp [press, ctrl, shift, chord]

theorem read_chord_up (out : List Typed) :
    [KeyEvent.key .keyLeftctrl false, .key .keyLeftshift false, .syn].foldlM read
      { held := chord, entry := some [], typed := out } =
        some { entry := some [], typed := out } := by
  have hctrl : Key.keyLeftctrl ∈ chord := by decide
  have hshift : Key.keyLeftshift ∈ chord.erase .keyLeftctrl := by decide
  have hnone : (chord.erase .keyLeftctrl).erase .keyLeftshift = ∅ := by decide
  simp [read, hctrl, hshift, hnone]

theorem read_enter (h : codePoint ds = some c) (out : List Typed) :
    (Injector.tap .keyEnter false).foldlM read { entry := some ds, typed := out } =
      some { typed := out ++ [.char c] } := by
  apply read_tap (Finset.notMem_empty _)
  simp [press, h]

theorem read_codePoint (c : Char) (out : List Typed) :
    ([.key .keyLeftctrl true, .key .keyLeftshift true, .syn] ++ Injector.tap .keyU false ++
      [.key .keyLeftctrl false, .key .keyLeftshift false, .syn] ++
      ((Nat.toDigits 16 c.toNat).flatMap fun h =>
        (asciiKey h).elim [] fun k => Injector.tap k.1 false) ++
      Injector.tap .keyEnter false : List KeyEvent).foldlM read { typed := out } =
        some { typed := out ++ [.char c] } := by
  have hdigits : ∀ d ∈ Nat.toDigits 16 c.toNat, ∃ n < 16, d = n.digitChar :=
    fun d hd => mem_toDigits hd
  rw [List.foldlM_append, List.foldlM_append, List.foldlM_append, List.foldlM_append,
    read_chord_down]
  simp only [Option.bind_eq_bind, Option.bind_some, read_chord_tap, read_chord_up,
    read_digits hdigits, List.nil_append, read_enter (codePoint_toDigits c)]

theorem arrival_eq (hr : c ≠ '\r') (h : ¬(c = '\x08' ∨ c = '\x7f')) : arrival c = .char c := by
  rw [arrival, if_neg hr, if_neg h]

theorem read_typeChar (c : Char) (out : List Typed) :
    (Injector.typeChar c).foldlM read { typed := out } = some { typed := out ++ [arrival c] } := by
  unfold Injector.typeChar
  split
  · next hc =>
    have harrival : arrival c = .char '\n' := by rcases hc with rfl | rfl <;> rfl
    rw [harrival]
    exact read_plain_tap rfl out
  · next hn =>
    split
    · next hc => exact hc ▸ read_plain_tap rfl out
    · split
      · next hc =>
        have harrival : arrival c = .backspace := by rcases hc with rfl | rfl <;> rfl
        rw [harrival]
        exact read_plain_tap rfl out
      · next hb =>
        split
        · next key shift hk =>
          have ht := typedBy_asciiKey hk
          cases shift with
          | false => exact read_plain_tap ht out
          | true => exact read_shift_tap ht out
        · rw [arrival_eq (fun hr => hn (.inr hr)) hb]
          exact read_codePoint c out

theorem read_text (cs : Str) (out : List Typed) :
    (cs.flatMap Injector.typeChar).foldlM read { typed := out } =
      some { typed := out ++ cs.map arrival } := by
  induction cs generalizing out with
  | nil => simp
  | cons c cs ih =>
    rw [List.flatMap_cons, List.foldlM_append, read_typeChar, Option.bind_eq_bind,
      Option.bind_some, ih, List.map_cons, List.append_assoc, List.singleton_append]

end KeyReader

/-- A text is typed with registered keys, and read as it was sent, with every key up at its end. -/
theorem text_arrives (s : String) :
    (∀ k d, .key k d ∈ Injector.text s → k ∈ allKeys) ∧
      (Injector.text s).foldlM KeyReader.read {} = some { typed := s.toList.map arrival } := by
  constructor
  · intro k d hk
    exact mem_allKeys k
  · exact KeyReader.read_text s.toList []

end DdrdeskHost
