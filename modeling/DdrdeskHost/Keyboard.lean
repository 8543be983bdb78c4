import DdrdeskHost.Lib.Text
import DdrdeskHost.Proto

namespace DdrdeskHost
open Text
set_option autoImplicit true

inductive Key
  | keyEsc | key1 | key2 | key3 | key4 | key5 | key6 | key7 | key8 | key9 | key0 | keyMinus
  | keyEqual | keyBackspace | keyTab | keyQ | keyW | keyE | keyR | keyT | keyY | keyU | keyI
  | keyO | keyP | keyLeftbrace | keyRightbrace | keyEnter | keyLeftctrl | keyA | keyS | keyD
  | keyF | keyG | keyH | keyJ | keyK | keyL | keySemicolon | keyApostrophe | keyGrave
  | keyLeftshift | keyBackslash | keyZ | keyX | keyC | keyV | keyB | keyN | keyM | keyComma
  | keyDot | keySlash | keyRightshift | keyLeftalt | keySpace | keyRightalt | keyLeftmeta
  | keyRightmeta | keyUp | keyDown | keyLeft | keyRight | keyDelete | keyHome | keyEnd
  | keyPageup | keyPagedown | btnLeft | btnRight | btnMiddle
  deriving DecidableEq

/-- The keys that the virtual keyboard registers. -/
def allKeys : List Key := [
  .keyEsc, .key1, .key2, .key3, .key4, .key5, .key6, .key7, .key8, .key9, .key0, .keyMinus,
  .keyEqual, .keyBackspace, .keyTab, .keyQ, .keyW, .keyE, .keyR, .keyT, .keyY, .keyU, .keyI,
  .keyO, .keyP, .keyLeftbrace, .keyRightbrace, .keyEnter, .keyLeftctrl, .keyA, .keyS, .keyD,
  .keyF, .keyG, .keyH, .keyJ, .keyK, .keyL, .keySemicolon, .keyApostrophe, .keyGrave,
  .keyLeftshift, .keyBackslash, .keyZ, .keyX, .keyC, .keyV, .keyB, .keyN, .keyM, .keyComma,
  .keyDot, .keySlash, .keyRightshift, .keyLeftalt, .keySpace, .keyRightalt, .keyLeftmeta,
  .keyRightmeta, .keyUp, .keyDown, .keyLeft, .keyRight, .keyDelete, .keyHome, .keyEnd, .keyPageup,
  .keyPagedown, .btnLeft, .btnRight, .btnMiddle]

/-- An event of the virtual keyboard: a key goes down or up, or a report ends. -/
inductive KeyEvent
  | key (k : Key) (down : Bool)
  | syn
  deriving DecidableEq

def letter : Char → Key
  | 'a' => .keyA
  | 'b' => .keyB
  | 'c' => .keyC
  | 'd' => .keyD
  | 'e' => .keyE
  | 'f' => .keyF
  | 'g' => .keyG
  | 'h' => .keyH
  | 'i' => .keyI
  | 'j' => .keyJ
  | 'k' => .keyK
  | 'l' => .keyL
  | 'm' => .keyM
  | 'n' => .keyN
  | 'o' => .keyO
  | 'p' => .keyP
  | 'q' => .keyQ
  | 'r' => .keyR
  | 's' => .keyS
  | 't' => .keyT
  | 'u' => .keyU
  | 'v' => .keyV
  | 'w' => .keyW
  | 'x' => .keyX
  | 'y' => .keyY
  | 'z' => .keyZ
  | _ => .keyA

def asciiKey (ch : Char) : Option (Key × Bool) :=
  if 'a' ≤ ch ∧ ch ≤ 'z' then some (letter ch, false)
  else if 'A' ≤ ch ∧ ch ≤ 'Z' then some (letter ch.toLower, true)
  else match ch with
    | '0' => some (.key0, false)
    | '1' => some (.key1, false)
    | '2' => some (.key2, false)
    | '3' => some (.key3, false)
    | '4' => some (.key4, false)
    | '5' => some (.key5, false)
    | '6' => some (.key6, false)
    | '7' => some (.key7, false)
    | '8' => some (.key8, false)
    | '9' => some (.key9, false)
    | ' ' => some (.keySpace, false)
    | '-' => some (.keyMinus, false)
    | '_' => some (.keyMinus, true)
    | '=' => some (.keyEqual, false)
    | '+' => some (.keyEqual, true)
    | '[' => some (.keyLeftbrace, false)
    | '\x7b' => some (.keyLeftbrace, true)
    | ']' => some (.keyRightbrace, false)
    | '\x7d' => some (.keyRightbrace, true)
    | '\x5c' => some (.keyBackslash, false)
    | '|' => some (.keyBackslash, true)
    | ';' => some (.keySemicolon, false)
    | ':' => some (.keySemicolon, true)
    | '\x27' => some (.keyApostrophe, false)
    | '\x22' => some (.keyApostrophe, true)
    | '\x60' => some (.keyGrave, false)
    | '~' => some (.keyGrave, true)
    | ',' => some (.keyComma, false)
    | '<' => some (.keyComma, true)
    | '.' => some (.keyDot, false)
    | '>' => some (.keyDot, true)
    | '/' => some (.keySlash, false)
    | '?' => some (.keySlash, true)
    | '!' => some (.key1, true)
    | '@' => some (.key2, true)
    | '#' => some (.key3, true)
    | '$' => some (.key4, true)
    | '%' => some (.key5, true)
    | '^' => some (.key6, true)
    | '&' => some (.key7, true)
    | '*' => some (.key8, true)
    | '(' => some (.key9, true)
    | ')' => some (.key0, true)
    | _ => none

def keyNames : List (Str × Key) := [
  ("return".toList, .keyEnter), ("enter".toList, .keyEnter), ("backspace".toList, .keyBackspace),
  ("tab".toList, .keyTab), ("escape".toList, .keyEsc), ("esc".toList, .keyEsc),
  ("space".toList, .keySpace), ("up".toList, .keyUp), ("down".toList, .keyDown),
  ("left".toList, .keyLeft), ("right".toList, .keyRight), ("delete".toList, .keyDelete),
  ("del".toList, .keyDelete), ("home".toList, .keyHome), ("end".toList, .keyEnd),
  ("pageup".toList, .keyPageup), ("pagedown".toList, .keyPagedown), ("ctrl".toList, .keyLeftctrl),
  ("control".toList, .keyLeftctrl), ("shift".toList, .keyLeftshift), ("alt".toList, .keyLeftalt),
  ("meta".toList, .keyLeftmeta), ("cmd".toList, .keyLeftmeta), ("win".toList, .keyLeftmeta)]

/-- The key of a name in any case, or else of its first character. -/
def namedKey (name : String) : Option Key :=
  let other := name.toList.map Char.toLower
  (keyNames.lookup other).or ((asciiKey (other.headD '\x00')).map Prod.fst)

namespace Injector

def tap (key : Key) (shift : Bool) : List KeyEvent :=
  (if shift then [.key .keyLeftshift true] else []) ++ [.key key true, .syn, .key key false] ++
    (if shift then [.key .keyLeftshift false] else []) ++ [.syn]

/-- A character without a key is entered as its code point, in hexadecimal digits. -/
def typeChar (ch : Char) : List KeyEvent :=
  if ch = '\n' ∨ ch = '\r' then tap .keyEnter false
  else if ch = '\t' then tap .keyTab false
  else if ch = '\x08' ∨ ch = '\x7f' then tap .keyBackspace false
  else match asciiKey ch with
    | some (key, shift) => tap key shift
    | none =>
      let hex := Nat.toDigits 16 ch.toNat
      [.key .keyLeftctrl true, .key .keyLeftshift true, .syn] ++ tap .keyU false ++
        [.key .keyLeftctrl false, .key .keyLeftshift false, .syn] ++
        (hex.flatMap fun h => (asciiKey h).elim [] fun k => tap k.1 false) ++ tap .keyEnter false

/-- What `text` emits; every event is taken to be accepted. -/
def text (s : String) : List KeyEvent := s.toList.flatMap typeChar

def key (name : String) (down : Bool) : List KeyEvent :=
  (namedKey name).elim [] fun k => [.key k down, .syn]

end Injector

/-- What the keyboard emits for an input event; the mouse is another device. -/
def keyboardEvents : InputEvent → List KeyEvent
  | .key k d => Injector.key k d
  | .text s => Injector.text s
  | .move _ _ | .btn _ _ | .wheel _ _ => []

theorem mem_allKeys (k : Key) : k ∈ allKeys := by
  cases k <;> decide

end DdrdeskHost
