import Mathlib.Algebra.Group.Nat.Defs
import Mathlib.Data.List.DropRight
import Mathlib.Data.Rat.Defs

/-- Text, as its characters. -/
abbrev Str := List Char

namespace Text

/-- Unicode white space. -/
def isWhite (c : Char) : Bool :=
  let n := c.toNat
  (9 ≤ n && n ≤ 13) || n == 0x20 || n == 0x85 || n == 0xa0 || n == 0x1680 ||
    (0x2000 ≤ n && n ≤ 0x200a) || n == 0x2028 || n == 0x2029 || n == 0x202f || n == 0x205f ||
    n == 0x3000

def trim (s : Str) : Str := (s.dropWhile isWhite).rdropWhile isWhite

def stripPrefix (p s : Str) : Option Str :=
  if p.isPrefixOf s then some (s.drop p.length) else none

def stripSuffix (p s : Str) : Option Str :=
  if p.isSuffixOf s then some (s.take (s.length - p.length)) else none

/-- Lines end in a newline or in a carriage return and a newline; the last one may lack it. -/
def lines (s : Str) : List Str :=
  let pieces := s.splitOn '\n'
  let ended := pieces.dropLast.map fun l => (stripSuffix ['\r'] l).getD l
  match pieces.getLast? with
  | none | some [] => ended
  | some l => ended ++ [l]

def splitWhitespace (s : Str) : List Str := (s.splitOnP isWhite).filter fun w => !w.isEmpty

def splitOnce (c : Char) : Str → Option (Str × Str)
  | [] => none
  | d :: s => if d = c then some ([], s) else (splitOnce c s).map fun p => (d :: p.1, p.2)

/-- Whether the two characters stand next to each other somewhere. -/
def containsPair (a b : Char) : Str → Bool
  | c :: d :: s => (c == a && d == b) || containsPair a b (d :: s)
  | _ => false

/-- Remove every occurrence of two adjacent characters, from the left. -/
def removePair (a b : Char) : Str → Str
  | c :: d :: s => if c = a ∧ d = b then removePair a b s else c :: removePair a b (d :: s)
  | s => s

def remove (c : Char) (s : Str) : Str := s.filter (· ≠ c)

/-- The number that decimal digits spell; `none` for anything else and for no digits. -/
def parseDigits (s : Str) : Option Nat :=
  if s = [] then none
  else s.foldlM (fun n c => if c.isDigit then some (n * 10 + (c.toNat - 48)) else none) 0

/-- `parse::<u32>`: digits behind an optional plus sign. -/
def parseU32 (s : Str) : Option Nat := do
  let n ← parseDigits ((stripPrefix ['+'] s).getD s)
  if n < 2 ^ 32 then some n else none

/-- Digits of a fraction, any number of them. -/
def parseFraction (s : Str) : Option ℚ :=
  if s = [] then some 0 else (parseDigits s).map fun (n : Nat) => (n : ℚ) / 10 ^ s.length

/-- A number of digits with an optional fraction; one of the two parts has digits. -/
def parseMantissa (s : Str) : Option ℚ :=
  match splitOnce '.' s with
  | none => (parseDigits s).map fun (n : Nat) => (n : ℚ)
  | some ([], []) => none
  | some ([], f) => parseFraction f
  | some (i, f) => do
    let n ← parseDigits i
    let q ← parseFraction f
    some (n + q)

def parseSign (s : Str) : Bool × Str :=
  match s with
  | '-' :: s => (true, s)
  | '+' :: s => (false, s)
  | s => (false, s)

/-- `parse::<f32>` of a finite decimal number, as its exact value; the words for infinity and
not-a-number are not read. -/
def parseF32 (s : Str) : Option ℚ := do
  let (neg, s) := parseSign s
  let q ← match splitOnce 'e' (s.map Char.toLower) with
    | none => parseMantissa s
    | some (m, e) => do
      let m ← parseMantissa m
      let (negExp, e) := parseSign e
      let e ← parseDigits e
      some (if negExp then m / 10 ^ e else m * 10 ^ e)
  some (if neg then -q else q)

def eqIgnoreAsciiCase (s t : Str) : Bool := s.map Char.toLower == t.map Char.toLower

section
set_option autoImplicit true

theorem stripPrefix_eq_none (h : ¬p <+: s) : stripPrefix p s = none :=
  if_neg fun hp => h (List.isPrefixOf_iff_prefix.1 hp)

theorem stripSuffix_append (p s : Str) : stripSuffix p (s ++ p) = some s := by
  have hp : p.isSuffixOf (s ++ p) := List.isSuffixOf_iff_suffix.2 (List.suffix_append s p)
  rw [stripSuffix, if_pos hp, List.length_append, Nat.add_sub_cancel, List.take_left]

theorem stripSuffix_eq_none (h : ¬p <:+ s) : stripSuffix p s = none :=
  if_neg fun hp => h (List.isSuffixOf_iff_suffix.1 hp)

theorem splitOnce_append (h : c ∉ s) (t : Str) : splitOnce c (s ++ c :: t) = some (s, t) := by
  induction s with
  | nil => exact if_pos rfl
  | cons d s ih =>
    rw [List.mem_cons, not_or] at h
    rw [List.cons_append, splitOnce, if_neg (Ne.symm h.1), ih h.2]
    rfl

theorem splitOnce_eq_none (h : c ∉ s) : splitOnce c s = none := by
  induction s with
  | nil => rfl
  | cons d s ih =>
    rw [List.mem_cons, not_or] at h
    rw [splitOnce, if_neg (Ne.symm h.1), ih h.2]
    rfl

theorem isDigit_of_isWhite {c : Char} (h : isWhite c) : c.isDigit = false := by
  rw [Bool.eq_false_iff, ne_eq, Char.isDigit_iff_toNat]
  simp only [isWhite, Bool.or_eq_true, Bool.and_eq_true, decide_eq_true_eq, beq_iff_eq] at h
  have h0 : '0'.toNat = 48 := rfl
  have h9 : '9'.toNat = 57 := rfl
  omega

theorem trim_concat_white (hs : ∀ c ∈ s, isWhite c = false) (hw : isWhite w) :
    trim (s ++ [w]) = s := by
  cases s with
  | nil => simp [trim, hw]
  | cons c s =>
    have hc : ¬isWhite c := by simp [hs c List.mem_cons_self]
    have hself : (c :: s).rdropWhile isWhite = c :: s := by
      rw [List.rdropWhile_eq_self_iff]
      intro hne
      simp [hs _ (List.getLast_mem hne)]
    rw [trim, List.cons_append, List.dropWhile_cons_of_neg hc, ← List.cons_append,
      List.rdropWhile_concat_pos _ _ _ hw, hself]

theorem e_of_toLower {c : Char} (h : c.toLower = 'e') : c = 'e' ∨ c = 'E' := by
  unfold Char.toLower at h
  split at h
  · have hval : c.val + 32 = 'E'.val + 32 := congrArg Char.val h
    exact .inr (Char.ext ((UInt32.add_left_inj 32).1 hval))
  · exact .inl h

theorem mem_of_containsPair (h : containsPair a b s) : a ∈ s ∧ b ∈ s := by
  fun_induction containsPair a b s with
  | case1 c d s ih =>
    rw [Bool.or_eq_true, Bool.and_eq_true, beq_iff_eq, beq_iff_eq] at h
    rcases h with ⟨rfl, rfl⟩ | h
    · simp
    · have hs := ih h
      exact ⟨List.mem_cons_of_mem c hs.1, List.mem_cons_of_mem c hs.2⟩
  | case2 s hs => cases h

theorem containsPair_append (a b : Char) (s : Str) : containsPair a b (s ++ [a, b]) := by
  induction s with
  | nil => simp [containsPair]
  | cons c s ih =>
    obtain ⟨d, t, ht⟩ := List.exists_cons_of_ne_nil (l := s ++ [a, b]) (by simp)
    rw [List.cons_append, ht, containsPair, ← ht, ih, Bool.or_true]

theorem remove_cons (c d : Char) (s : Str) :
    remove c (d :: s) = if d = c then remove c s else d :: remove c s := by
  simp only [remove, List.filter_cons, ne_eq, decide_not, Bool.not_eq_eq_eq_not, Bool.not_true,
    decide_eq_false_iff_not, ite_not]

theorem remove_eq_self (h : c ∉ s) : remove c s = s := by
  apply List.filter_eq_self.2
  intro d hd
  exact decide_eq_true fun hdc => h (hdc ▸ hd)

theorem remove_removePair (a b : Char) (s : Str) :
    remove a (remove b (removePair a b s)) = remove a (remove b s) := by
  fun_induction removePair a b s with
  | case1 c d s h ih =>
    rw [ih, h.1, h.2]
    by_cases hab : a = b
    · simp [remove_cons, hab]
    · simp [remove_cons, hab]
  | case2 c d s h ih =>
    by_cases hc : c = b
    · rw [remove_cons b c, remove_cons b c, if_pos hc, if_pos hc, ih]
    · rw [remove_cons b c, remove_cons b c, if_neg hc, if_neg hc, remove_cons a c, remove_cons a c,
        ih]
  | case3 s h => rfl

theorem not_mem_of_mem_splitOn {s l : Str} {c : Char} (h : l ∈ s.splitOn c) : c ∉ l := by
  induction s generalizing l with
  | nil =>
    rw [List.splitOn_nil, List.mem_singleton] at h
    rw [h]
    exact List.not_mem_nil
  | cons d s ih =>
    rw [List.splitOn_cons_eq_if_modifyHead] at h
    split at h
    · next hd =>
      rcases List.mem_cons.1 h with rfl | h
      · exact List.not_mem_nil
      · exact ih h
    · next hd =>
      obtain ⟨p, ps, hs⟩ := List.exists_cons_of_ne_nil (List.splitOn_ne_nil c s)
      rw [hs, List.modifyHead_cons] at h
      have hdc : c ≠ d := fun he => hd (by simp [he])
      rcases List.mem_cons.1 h with rfl | h
      · exact mt List.mem_cons.1 (not_or.2 ⟨hdc, ih (hs ▸ List.mem_cons_self)⟩)
      · exact ih (hs ▸ List.mem_cons_of_mem p h)

theorem newline_not_mem_lines (h : l ∈ lines text) : '\n' ∉ l := by
  have hended : ∀ l ∈ (text.splitOn '\n').dropLast.map fun l => (stripSuffix ['\r'] l).getD l,
      '\n' ∉ l := by
    intro l hl
    obtain ⟨m, hm, rfl⟩ := List.mem_map.1 hl
    have hm := not_mem_of_mem_splitOn ((List.dropLast_sublist _).subset hm)
    intro hn
    apply hm
    rw [stripSuffix] at hn
    split at hn
    · exact List.mem_of_mem_take hn
    · exact hn
  rw [lines] at h
  split at h
  · exact hended l h
  · exact hended l h
  · next hlast =>
    rcases List.mem_append.1 h with h | h
    · exact hended l h
    · rw [List.mem_singleton.1 h]
      exact not_mem_of_mem_splitOn (List.mem_of_getLast? hlast)

theorem exists_lines {ls : List Str} (h : ∀ l ∈ ls, '\n' ∉ l) : ∃ text, lines text = ls := by
  have hsplit : (ls.flatMap (· ++ ['\r', '\n'])).splitOn '\n' = ls.map (· ++ ['\r']) ++ [[]] := by
    induction ls with
    | nil => rfl
    | cons l ls ih =>
      obtain ⟨hl, hls⟩ := List.forall_mem_cons.1 h
      have hreturn : '\n' ∉ l ++ ['\r'] := by simp [hl]
      rw [List.flatMap_cons, List.append_cons l, List.append_assoc, List.singleton_append,
        List.splitOn_append_cons_self_of_not_mem hreturn, ih hls]
      rfl
  refine ⟨ls.flatMap (· ++ ['\r', '\n']), ?_⟩
  simp only [lines, hsplit, List.dropLast_concat, List.getLast?_concat, List.map_map]
  refine (List.map_congr_left fun l _ => ?_).trans (List.map_id _)
  simp only [Function.comp_apply, stripSuffix_append, Option.getD_some, id_eq]

end

end Text
