import DdrdeskHost.Lib.Text

namespace Text
set_option autoImplicit true

theorem splitWhitespace_append (hc : isWhite c) (s t : Str) :
    splitWhitespace (s ++ c :: t) = splitWhitespace s ++ splitWhitespace t := by
  rw [splitWhitespace, List.splitOnP_append_cons s t hc, List.filter_append]
  rfl

/-- Some characters, none of them white. -/
structure Word where
  text : Str
  ne_nil : text ≠ []
  noWhite : ∀ c ∈ text, isWhite c = false

/-- Text that is checked to be a word. -/
def Word.of (s : Str) (h : s ≠ [] ∧ s.all fun c => !isWhite c) : Word where
  text := s
  ne_nil := h.1
  noWhite c hc := by simpa using List.all_eq_true.1 h.2 c hc

/-- Words with a space in front of each. -/
def spaced (ws : List Word) : Str := ws.flatMap fun w => ' ' :: w.text

/-- Words, one space apart. -/
def phrase (w : Word) (ws : List Word) : Str := w.text ++ spaced ws

theorem Word.splitWhitespace (w : Word) : splitWhitespace w.text = [w.text] := by
  rw [Text.splitWhitespace, List.splitOnP_eq_singleton w.noWhite]
  simp [w.ne_nil]

theorem splitWhitespace_phrase (w : Word) (ws : List Word) :
    splitWhitespace (phrase w ws) = w.text :: ws.map Word.text := by
  induction ws generalizing w with
  | nil => rw [phrase, spaced, List.flatMap_nil, List.append_nil, w.splitWhitespace, List.map_nil]
  | cons v ws ih =>
    have hphrase : phrase w (v :: ws) = w.text ++ ' ' :: phrase v ws := by
      simp [phrase, spaced]
    rw [hphrase, splitWhitespace_append (by decide), w.splitWhitespace, ih]
    rfl

theorem phrase_eq_concat (w : Word) (ws : List Word) :
    ∃ s c, phrase w ws = s ++ [c] ∧ isWhite c = false := by
  induction ws using List.reverseRecOn with
  | nil =>
    have hw := w.noWhite _ (List.getLast_mem w.ne_nil)
    refine ⟨w.text.dropLast, w.text.getLast w.ne_nil, ?_, hw⟩
    rw [List.dropLast_append_getLast, phrase, spaced, List.flatMap_nil, List.append_nil]
  | append_singleton ws v ih =>
    have hv := v.noWhite _ (List.getLast_mem v.ne_nil)
    refine ⟨phrase w ws ++ ' ' :: v.text.dropLast, v.text.getLast v.ne_nil, ?_, hv⟩
    rw [List.append_assoc, List.cons_append, List.dropLast_append_getLast]
    simp [phrase, spaced]

theorem mem_phrase (h : c ∈ phrase w ws) : c = ' ' ∨ isWhite c = false := by
  rw [phrase, List.mem_append, spaced, List.mem_flatMap] at h
  rcases h with h | ⟨v, hv, h⟩
  · exact .inr (w.noWhite c h)
  · rw [List.mem_cons] at h
    exact h.imp_right (v.noWhite c)

theorem trim_phrase (hs : ∀ c ∈ s, isWhite c) (w : Word) (ws : List Word) :
    trim (s ++ phrase w ws) = phrase w ws := by
  obtain ⟨c, t, hw⟩ := List.exists_cons_of_ne_nil w.ne_nil
  have hc : isWhite c = false := w.noWhite c (hw ▸ List.mem_cons_self)
  have hphrase : phrase w ws = c :: (t ++ spaced ws) := by rw [phrase, hw, List.cons_append]
  have hleft : (s ++ phrase w ws).dropWhile isWhite = phrase w ws := by
    rw [List.dropWhile_append_of_pos hs, hphrase, List.dropWhile_cons_of_neg (by simp [hc])]
  obtain ⟨u, d, hu, hd⟩ := phrase_eq_concat w ws
  rw [trim, hleft, hu]
  exact List.rdropWhile_concat_neg _ _ _ (by simp [hd])

/-- A line of text without the newline that ends it. -/
structure Line where
  text : Str
  noNewline : '\n' ∉ text
  noReturn : ¬['\r'] <:+ text

def unlines (ls : List Line) : Str := ls.flatMap fun l => l.text ++ ['\n']

theorem splitOn_unlines (ls : List Line) :
    (unlines ls).splitOn '\n' = ls.map Line.text ++ [[]] := by
  induction ls with
  | nil => rfl
  | cons l ls ih =>
    have hcons : unlines (l :: ls) = l.text ++ '\n' :: unlines ls := by simp [unlines]
    rw [hcons, List.splitOn_append_cons_self_of_not_mem l.noNewline, ih]
    rfl

theorem lines_unlines (ls : List Line) : lines (unlines ls) = ls.map Line.text := by
  have hended : ∀ l ∈ ls.map Line.text, (stripSuffix ['\r'] l).getD l = l := by
    intro l hl
    obtain ⟨l, -, rfl⟩ := List.mem_map.1 hl
    rw [stripSuffix_eq_none l.noReturn, Option.getD_none]
  simp only [lines, splitOn_unlines, List.dropLast_concat, List.getLast?_concat]
  exact (List.map_congr_left hended).trans (List.map_id _)

/-- White space in front of a line's words. -/
structure Indent where
  text : Str
  blank : ∀ c ∈ text, isWhite c ∧ c ≠ '\n'

/-- A line of words, one space apart. -/
def phraseLine (i : Indent) (w : Word) (ws : List Word) : Line where
  text := i.text ++ phrase w ws
  noNewline := by
    intro h
    rcases List.mem_append.1 h with h | h
    · exact (i.blank _ h).2 rfl
    · exact absurd (mem_phrase h) (by decide)
  noReturn := by
    obtain ⟨u, d, hu, hd⟩ := phrase_eq_concat w ws
    rw [hu, ← List.append_assoc]
    intro h
    have hr : '\r' = d := List.singleton_suffix_append_singleton_iff.1 h
    rw [← hr] at hd
    exact absurd hd (by decide)

theorem trim_phraseLine (i : Indent) (w : Word) (ws : List Word) :
    trim (phraseLine i w ws).text = phrase w ws :=
  trim_phrase (fun c hc => (i.blank c hc).1) w ws

end Text
