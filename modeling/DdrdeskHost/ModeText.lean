import DdrdeskHost.Display
import DdrdeskHost.Lib.Words

namespace DdrdeskHost
open Text
set_option autoImplicit true

/-- Decimal digits. -/
structure Numeral where
  text : Str
  ne_nil : text ≠ []
  digits : ∀ c ∈ text, c.isDigit

def Numeral.value (n : Numeral) : Nat := Nat.ofDigitChars 10 n.text 0

/-- A number without leading zeros. -/
def Numeral.ofNat (n : Nat) : Numeral where
  text := Nat.toDigits 10 n
  ne_nil := Nat.toDigits_ne_nil
  digits _ := Nat.isDigit_of_mem_toDigits (by decide) (by decide)

theorem Numeral.value_ofNat (n : Nat) : (ofNat n).value = n := Nat.ofDigitChars_ten_toDigits

/-- A plain decimal number. -/
structure Decimal where
  whole : Numeral
  fraction : Option Numeral

def Decimal.text (d : Decimal) : Str :=
  d.whole.text ++ d.fraction.elim [] fun f => '.' :: f.text

def Decimal.value (d : Decimal) : ℚ :=
  d.whole.value + d.fraction.elim 0 fun f => (f.value : ℚ) / 10 ^ f.text.length

/-- A mode as it is listed, `id:WxH@R`. -/
structure ModeText where
  id : Numeral
  w : Numeral
  h : Numeral
  hz : Decimal
  id_lt : id.value < 2 ^ 32
  w_lt : w.value < 2 ^ 32
  h_lt : h.value < 2 ^ 32

namespace ModeText

def label (m : ModeText) : Str := m.w.text ++ 'x' :: (m.h.text ++ '@' :: m.hz.text)

def text (m : ModeText) : Str := m.id.text ++ ':' :: m.label

/-- A mode of any numbers. -/
def ofNumbers (id w h : UInt32) (hz : Decimal) : ModeText where
  id := .ofNat id.toNat
  w := .ofNat w.toNat
  h := .ofNat h.toNat
  hz := hz
  id_lt := (Numeral.value_ofNat _).trans_lt id.toNat_lt
  w_lt := (Numeral.value_ofNat _).trans_lt w.toNat_lt
  h_lt := (Numeral.value_ofNat _).trans_lt h.toNat_lt

def mode (m : ModeText) : Mode :=
  { w := m.w.value, h := m.h.value, hz := m.hz.value, label := m.label }

end ModeText

theorem Numeral.not_mem (n : Numeral) (hc : c.isDigit = false) : c ∉ n.text :=
  fun h => absurd (n.digits c h) (by simp [hc])

theorem foldlM_digits (h : ∀ c ∈ s, c.isDigit) (n : Nat) :
    s.foldlM (fun n c => if c.isDigit then some (n * 10 + (c.toNat - 48)) else none) n =
      some (Nat.ofDigitChars 10 s n) := by
  induction s generalizing n with
  | nil => rfl
  | cons c s ih =>
    rw [List.forall_mem_cons] at h
    rw [List.foldlM_cons, if_pos h.1, Nat.ofDigitChars_cons, Nat.mul_comm 10]
    exact ih h.2 _

theorem Numeral.parseDigits (n : Numeral) : Text.parseDigits n.text = some n.value := by
  rw [Text.parseDigits, if_neg n.ne_nil, foldlM_digits n.digits]
  rfl

theorem Numeral.parseU32 (n : Numeral) (h : n.value < 2 ^ 32) :
    Text.parseU32 n.text = some n.value := by
  have hplus : ¬['+'] <+: n.text := fun hp =>
    n.not_mem (by decide) (hp.subset List.mem_cons_self)
  rw [Text.parseU32, stripPrefix_eq_none hplus, Option.getD_none, n.parseDigits]
  exact if_pos h

theorem Numeral.parseFraction (n : Numeral) :
    Text.parseFraction n.text = some ((n.value : ℚ) / 10 ^ n.text.length) := by
  rw [Text.parseFraction, if_neg n.ne_nil, n.parseDigits]
  rfl

theorem Decimal.not_mem (d : Decimal) (hc : c.isDigit = false) (hp : c ≠ '.') : c ∉ d.text := by
  cases hf : d.fraction with
  | none => simpa [Decimal.text, hf] using d.whole.not_mem hc
  | some f => simp [Decimal.text, hf, d.whole.not_mem hc, f.not_mem hc, hp]

theorem Decimal.parseMantissa (d : Decimal) : Text.parseMantissa d.text = some d.value := by
  have hpoint : '.' ∉ d.whole.text := d.whole.not_mem (by decide)
  cases hf : d.fraction with
  | none =>
    have htext : d.text = d.whole.text := by simp [Decimal.text, hf]
    rw [htext, Text.parseMantissa, splitOnce_eq_none hpoint]
    simp [d.whole.parseDigits, Decimal.value, hf]
  | some f =>
    have htext : d.text = d.whole.text ++ '.' :: f.text := by simp [Decimal.text, hf]
    obtain ⟨c, s, hs⟩ := List.exists_cons_of_ne_nil d.whole.ne_nil
    have hn := d.whole.parseDigits
    rw [htext, Text.parseMantissa, splitOnce_append hpoint]
    rw [hs] at hn ⊢
    simp [hn, f.parseFraction, Decimal.value, hf]

theorem Decimal.parseF32 (d : Decimal) : Text.parseF32 d.text = some d.value := by
  have hminus : '-' ∉ d.text := d.not_mem (by decide) (by decide)
  have hplus : '+' ∉ d.text := d.not_mem (by decide) (by decide)
  have hsign : parseSign d.text = (false, d.text) := by
    unfold parseSign
    split
    · next s hs => exact absurd (hs ▸ List.mem_cons_self) hminus
    · next s hs => exact absurd (hs ▸ List.mem_cons_self) hplus
    · rfl
  have hexp : 'e' ∉ d.text.map Char.toLower := by
    intro h
    obtain ⟨c, hc, he⟩ := List.mem_map.1 h
    rcases e_of_toLower he with rfl | rfl
    · exact d.not_mem (by decide) (by decide) hc
    · exact d.not_mem (by decide) (by decide) hc
  simp only [Text.parseF32, hsign, splitOnce_eq_none hexp, d.parseMantissa]
  rfl

namespace ModeText

theorem not_mem_label (m : ModeText) (hc : c.isDigit = false) (hp : c ≠ '.') (hx : c ≠ 'x')
    (ha : c ≠ '@') : c ∉ m.label := by
  simp [label, m.w.not_mem hc, m.h.not_mem hc, m.hz.not_mem hc hp, hx, ha]

theorem not_mem_text (m : ModeText) (hc : c.isDigit = false) (hp : c ≠ '.') (hx : c ≠ 'x')
    (ha : c ≠ '@') (hcolon : c ≠ ':') : c ∉ m.text := by
  simp [text, m.id.not_mem hc, m.not_mem_label hc hp hx ha, hcolon]

theorem star_not_mem (m : ModeText) : '*' ∉ m.text :=
  m.not_mem_text (by decide) (by decide) (by decide) (by decide) (by decide)

theorem bang_not_mem (m : ModeText) : '!' ∉ m.text :=
  m.not_mem_text (by decide) (by decide) (by decide) (by decide) (by decide)

theorem afterColon_text (m : ModeText) : afterColon m.text = m.label := by
  have hid : ':' ∉ m.id.text := m.id.not_mem (by decide)
  have hlabel : ':' ∉ m.label :=
    m.not_mem_label (by decide) (by decide) (by decide) (by decide)
  rw [afterColon, text, List.splitOn_append_cons_self_of_not_mem hid,
    List.splitOn_eq_singleton hlabel]
  rfl

theorem splitOnce_text (m : ModeText) : splitOnce ':' m.text = some (m.id.text, m.label) :=
  splitOnce_append (m.id.not_mem (by decide)) m.label

theorem parseMode_eq (m : ModeText) (h : dropMarks tok = m.text) :
    parseMode tok = some m.mode := by
  have hat : splitOnce '@' m.label = some (m.w.text ++ 'x' :: m.h.text, m.hz.text) := by
    have hwh : '@' ∉ m.w.text ++ 'x' :: m.h.text := by
      simp [m.w.not_mem (c := '@') (by decide), m.h.not_mem (c := '@') (by decide)]
    have hlabel : m.label = (m.w.text ++ 'x' :: m.h.text) ++ '@' :: m.hz.text := by
      simp [label]
    rw [hlabel, splitOnce_append hwh]
  have hx : splitOnce 'x' (m.w.text ++ 'x' :: m.h.text) = some (m.w.text, m.h.text) :=
    splitOnce_append (m.w.not_mem (by decide)) m.h.text
  simp only [parseMode, h, m.afterColon_text, hat, hx, m.w.parseU32 m.w_lt, m.h.parseU32 m.h_lt,
    m.hz.parseF32, Option.bind_eq_bind, Option.bind_some]
  rfl

end ModeText

def isMark (c : Char) : Bool := c == '*' || c == '!'

/-- How the current mode is marked. -/
inductive CurrentMark
  | star
  | bangStar
  | starBang

def CurrentMark.text : CurrentMark → Str
  | star => "*".toList
  | bangStar => "!*".toList
  | starBang => "*!".toList

/-- A mode that is not the current one; it may be marked as preferred. -/
structure OtherMode extends ModeText where
  preferred : Bool

def OtherMode.mark (o : OtherMode) : Str := if o.preferred then "!".toList else []

theorem eq_of_isMark (h : isMark c) : c = '*' ∨ c = '!' := by
  simpa [isMark] using h

theorem ModeText.dropMarks_append (m : ModeText) (h : mark.all isMark) :
    dropMarks (m.text ++ mark) = m.text := by
  have hmark : remove '!' (remove '*' mark) = [] := by
    rw [remove, remove, List.filter_filter, List.filter_eq_nil_iff]
    intro c hc
    rcases eq_of_isMark (List.all_eq_true.1 h c hc) with rfl | rfl <;> decide
  have htext : remove '!' (remove '*' m.text) = m.text := by
    rw [remove_eq_self m.star_not_mem, remove_eq_self m.bang_not_mem]
  have happend : remove '!' (remove '*' (m.text ++ mark)) =
      remove '!' (remove '*' m.text) ++ remove '!' (remove '*' mark) := by
    simp only [remove, List.filter_append]
  rw [dropMarks, remove_removePair, happend, htext, hmark, List.append_nil]

theorem currentMode_other (h : '*' ∉ tok) (mode : Option Str) : currentMode mode tok = mode := by
  have hstar : ¬['*'] <:+ tok := fun hs => h (hs.subset List.mem_cons_self)
  have hbang : ¬"!*".toList <:+ tok := fun hs => h (hs.subset (by decide))
  have hpair : (containsPair '!' '*' tok || (['*'].isSuffixOf tok || containsPair '*' '!' tok)) =
      false := by
    rw [Bool.eq_false_iff, ne_eq, Bool.or_eq_true, Bool.or_eq_true, List.isSuffixOf_iff_suffix]
    rintro (hp | hs | hp)
    · exact h (mem_of_containsPair hp).2
    · exact hstar hs
    · exact h (mem_of_containsPair hp).1
  simp only [currentMode, stripSuffix_eq_none hbang, stripSuffix_eq_none hstar, hpair,
    Bool.false_eq_true, ↓reduceIte]

theorem currentMode_current (m : ModeText) (mark : CurrentMark) (mode : Option Str) :
    currentMode mode (m.text ++ mark.text) = some m.label := by
  cases mark with
  | star =>
    have hbang : ¬"!*".toList <:+ m.text ++ ['*'] := by
      intro hs
      have hb : ['!'] <:+ m.text := List.suffix_append_self_iff.1 hs
      exact m.bang_not_mem (hb.subset List.mem_cons_self)
    have hx : m.text.contains 'x' := by simp [ModeText.text, ModeText.label]
    have hlabel : m.label.rdropWhile (· = '!') = m.label := by
      apply List.rdropWhile_eq_self_iff.2
      intro hne hlast
      have hmem : '!' ∈ m.label := of_decide_eq_true hlast ▸ List.getLast_mem hne
      exact m.not_mem_label (by decide) (by decide) (by decide) (by decide) hmem
    have hstar : stripSuffix ['*'] (m.text ++ ['*']) = some m.text := stripSuffix_append _ _
    have htext : CurrentMark.star.text = ['*'] := rfl
    simp only [htext, currentMode, stripSuffix_eq_none hbang, hstar, hx, ↓reduceIte,
      m.afterColon_text, hlabel]
  | bangStar =>
    simp only [currentMode, CurrentMark.text, stripSuffix_append, m.afterColon_text]
  | starBang =>
    have hstar : ¬['*'] <:+ m.text ++ "*!".toList := by
      have happend : m.text ++ "*!".toList = (m.text ++ ['*']) ++ ['!'] := by simp
      rw [happend, List.singleton_suffix_append_singleton_iff]
      decide
    have hbang : ¬"!*".toList <:+ m.text ++ "*!".toList := fun hs =>
      hstar (.trans (List.suffix_append ['!'] ['*']) hs)
    have hpair : containsPair '*' '!' (m.text ++ "*!".toList) := containsPair_append '*' '!' m.text
    have hdrop : dropMarks (m.text ++ "*!".toList) = m.text := m.dropMarks_append (by decide)
    simp only [currentMode, CurrentMark.text, stripSuffix_eq_none hbang, stripSuffix_eq_none hstar,
      hpair, Bool.or_true, ↓reduceIte, hdrop, m.splitOnce_text]

theorem OtherMode.currentMode (o : OtherMode) (mode : Option Str) :
    DdrdeskHost.currentMode mode (o.text ++ o.mark) = mode := by
  apply currentMode_other
  have hmark : '*' ∉ o.mark := by
    unfold OtherMode.mark
    split <;> decide
  rw [List.mem_append, not_or]
  exact ⟨o.star_not_mem, hmark⟩

/-- A mode's text with marks behind it. -/
def ModeText.word (m : ModeText) (mark : Str) (h : mark.all isMark) : Word where
  text := m.text ++ mark
  ne_nil := by simp [ModeText.text]
  noWhite := by
    intro c hc
    rw [Bool.eq_false_iff]
    intro hw
    rcases List.mem_append.1 hc with hc | hc
    · refine m.not_mem_text (isDigit_of_isWhite hw) ?_ ?_ ?_ ?_ hc
      all_goals rintro rfl; revert hw; decide
    · rcases eq_of_isMark (List.all_eq_true.1 h c hc) with rfl | rfl <;> revert hw <;> decide

theorem ModeText.parseMode_word (m : ModeText) (mark : Str) (h : mark.all isMark) :
    parseMode (m.word mark h).text = some m.mode :=
  m.parseMode_eq (m.dropMarks_append h)

def OtherMode.word (o : OtherMode) : Word :=
  o.toModeText.word o.mark (by unfold OtherMode.mark; split <;> decide)

def CurrentMark.word (mark : CurrentMark) (m : ModeText) : Word :=
  m.word mark.text (by cases mark <;> decide)

end DdrdeskHost
