import DdrdeskHost.Keyboard
import DdrdeskHost.Lib.LastWrite
import Mathlib.Data.Finset.Basic
import Mathlib.Data.Finset.Lattice.Lemmas
import Mathlib.Data.Finset.SDiff

namespace DdrdeskHost
set_option autoImplicit true

/-- What an event makes of the keys that are held down; to press a held key or to release a key that
is up changes nothing. -/
def KeyEvent.hold (held : Finset Key) : KeyEvent → Finset Key
  | .key k true => insert k held
  | .key k false => held.erase k
  | .syn => held

/-- The keys that are held down after the input events of a session. -/
def heldAfter (es : List InputEvent) : Finset Key :=
  (es.flatMap keyboardEvents).foldl KeyEvent.hold ∅

/-- What an input event says of a key by its name. -/
def keyWrite (k : Key) : InputEvent → Option Bool
  | .key name d => if namedKey name = some k then some d else none
  | _ => none

/-- The keys that a character is typed with. -/
def charKeys (ch : Char) : List Key :=
  if ch = '\n' ∨ ch = '\r' then [.keyEnter]
  else if ch = '\t' then [.keyTab]
  else if ch = '\x08' ∨ ch = '\x7f' then [.keyBackspace]
  else match asciiKey ch with
    | some (key, shift) => if shift then [key, .keyLeftshift] else [key]
    | none =>
      [.keyLeftctrl, .keyLeftshift, .keyU] ++
        ((Nat.toDigits 16 ch.toNat).flatMap fun h => ((asciiKey h).map Prod.fst).toList) ++
        [.keyEnter]

def textKeys (s : String) : List Key := s.toList.flatMap charKeys

/-- What an input event says of a key by its name, or by typing with it. -/
def holdWrite (k : Key) : InputEvent → Option Bool
  | .text s => if k ∈ textKeys s then some false else none
  | e => keyWrite k e

/-- The event is one of those that reach the keyboard. -/
def OfKeyboard : InputEvent → Prop
  | .key _ _ | .text _ => True
  | _ => False

theorem hold_tap (held : Finset Key) (key : Key) (shift : Bool) :
    (Injector.tap key shift).foldl KeyEvent.hold held =
      held \ (if shift then [key, .keyLeftshift] else [key]).toFinset := by
  ext k
  cases shift with
  | false =>
    simp only [Injector.tap, KeyEvent.hold, List.foldl_cons, List.foldl_append, List.foldl_nil,
      Bool.false_eq_true, ↓reduceIte, Finset.mem_erase, Finset.mem_insert, Finset.mem_sdiff,
      List.toFinset_cons, List.toFinset_nil, Finset.notMem_empty]
    tauto
  | true =>
    simp only [Injector.tap, KeyEvent.hold, List.foldl_cons, List.foldl_append, List.foldl_nil,
      ↓reduceIte, Finset.mem_erase, Finset.mem_insert, Finset.mem_sdiff, List.toFinset_cons,
      List.toFinset_nil, Finset.notMem_empty]
    tauto

theorem hold_flatMap {f : α → List KeyEvent} {g : α → List Key}
    (h : ∀ a held, (f a).foldl KeyEvent.hold held = held \ (g a).toFinset) (as : List α)
    (held : Finset Key) :
    (as.flatMap f).foldl KeyEvent.hold held = held \ (as.flatMap g).toFinset := by
  induction as generalizing held with
  | nil => simp
  | cons a as ih =>
    rw [List.flatMap_cons, List.foldl_append, h, ih, List.flatMap_cons, List.toFinset_append]
    exact sdiff_sdiff_left

theorem hold_digits (s : Str) (held : Finset Key) :
    (s.flatMap fun h => (asciiKey h).elim [] fun k => Injector.tap k.1 false).foldl
      KeyEvent.hold held =
        held \ (s.flatMap fun h => ((asciiKey h).map Prod.fst).toList).toFinset := by
  apply hold_flatMap
  intro h held
  cases asciiKey h with
  | none => simp
  | some k => exact hold_tap held k.1 false

theorem hold_chord (held : Finset Key) :
    ([.key .keyLeftctrl true, .key .keyLeftshift true, .syn] ++ Injector.tap .keyU false ++
      [.key .keyLeftctrl false, .key .keyLeftshift false, .syn] : List KeyEvent).foldl
      KeyEvent.hold held = held \ {.keyLeftctrl, .keyLeftshift, .keyU} := by
  rw [List.foldl_append, List.foldl_append, hold_tap]
  ext k
  simp only [KeyEvent.hold, List.foldl_cons, List.foldl_nil, Bool.false_eq_true, ↓reduceIte,
    Finset.mem_erase, Finset.mem_insert, Finset.mem_sdiff, List.toFinset_cons, List.toFinset_nil,
    Finset.mem_singleton, Finset.notMem_empty]
  tauto

theorem hold_typeChar (c : Char) (held : Finset Key) :
    (Injector.typeChar c).foldl KeyEvent.hold held = held \ (charKeys c).toFinset := by
  unfold Injector.typeChar charKeys
  split
  · exact hold_tap held .keyEnter false
  · split
    · exact hold_tap held .keyTab false
    · split
      · exact hold_tap held .keyBackspace false
      · cases asciiKey c with
        | some p => exact hold_tap held p.1 p.2
        | none =>
          simp only
          rw [List.foldl_append, List.foldl_append, hold_chord, hold_digits, hold_tap,
            List.toFinset_append, List.toFinset_append, sdiff_sdiff_left, sdiff_sdiff_left,
            Finset.union_assoc]
          rfl

theorem hold_text (s : String) (held : Finset Key) :
    (Injector.text s).foldl KeyEvent.hold held = held \ (textKeys s).toFinset :=
  hold_flatMap hold_typeChar s.toList held

theorem hold_key (name : String) (d : Bool) (held : Finset Key) (k : Key) :
    k ∈ (Injector.key name d).foldl KeyEvent.hold held ↔
      if namedKey name = some k then d = true else k ∈ held := by
  unfold Injector.key
  cases hn : namedKey name with
  | none => simp
  | some n =>
    by_cases hk : n = k
    · cases d <;> simp [KeyEvent.hold, hk]
    · cases d <;> simp [KeyEvent.hold, hk, Ne.symm hk]

theorem mem_hold_input (k : Key) (held : Finset Key) (e : InputEvent) :
    decide (k ∈ (keyboardEvents e).foldl KeyEvent.hold held) =
      (holdWrite k e).getD (decide (k ∈ held)) := by
  cases e with
  | key name d =>
    simp only [keyboardEvents, hold_key, holdWrite, keyWrite]
    by_cases hk : namedKey name = some k <;> simp [hk]
  | text s =>
    simp only [keyboardEvents, hold_text, holdWrite]
    by_cases hk : k ∈ textKeys s <;> simp [hk]
  | move dx dy => rfl
  | btn b d => rfl
  | wheel dx dy => rfl

theorem mem_heldAfter (es : List InputEvent) (k : Key) :
    k ∈ heldAfter es ↔ lastWrite (holdWrite k) es = some true := by
  have hheld : decide (k ∈ heldAfter es) = (lastWrite (holdWrite k) es).getD false := by
    rw [heldAfter, List.foldl_flatMap]
    exact @foldl_lastWrite _ _ _ (holdWrite k) _ (fun held => decide (k ∈ held))
      (mem_hold_input k) es ∅
  rw [← decide_eq_true_iff (p := k ∈ heldAfter es), hheld]
  cases lastWrite (holdWrite k) es <;> simp

/-- The keys that are held are those that a key event pressed last, unless a text that was typed
since then is typed with them; a text leaves the held keys as they were if and only if none of them
is one that it is typed with. -/
theorem held_keys_after_typing (es : List InputEvent) :
    (∀ k, k ∈ heldAfter es ↔ lastWrite (holdWrite k) es = some true) ∧
      ∀ s, heldAfter (es ++ [.text s]) = heldAfter es ↔ ∀ k ∈ textKeys s, k ∉ heldAfter es := by
  refine ⟨mem_heldAfter es, ?_⟩
  intro s
  have htext : heldAfter (es ++ [.text s]) = heldAfter es \ (textKeys s).toFinset := by
    rw [heldAfter, List.flatMap_append, List.foldl_append, List.flatMap_singleton]
    exact hold_text s (heldAfter es)
  rw [htext, Finset.sdiff_eq_self_iff_disjoint, Finset.disjoint_right]
  simp only [List.mem_toFinset]

/-- A text that is typed with a held key releases it. -/
theorem typing_releases_held_key :
    ¬∀ es : List InputEvent, (∀ e ∈ es, OfKeyboard e) →
      ∀ k, k ∈ heldAfter es ↔ lastWrite (keyWrite k) es = some true := by
  intro h
  have hkey : lastWrite (keyWrite .keyA) [.key "a" true, .text "a"] = some true := by
    decide +kernel
  have hup : Key.keyA ∉ heldAfter [.key "a" true, .text "a"] := by decide +kernel
  exact hup ((h _ (by simp [OfKeyboard]) .keyA).2 hkey)

end DdrdeskHost
