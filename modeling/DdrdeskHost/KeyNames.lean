import DdrdeskHost.Keyboard

namespace DdrdeskHost
open Text
set_option autoImplicit true

/-- The name as `key` compares it. -/
def lowerName (name : String) : Str := name.toList.map Char.toLower

/-- A name in lower case stands for a key of the table, or for that of its single character. -/
inductive Names : Str → Key → Prop
  | table (h : (other, k) ∈ keyNames) : Names other k
  | char (h : asciiKey c = some (k, shift)) : Names [c] k

theorem keyNames_lookup :
    ∀ p ∈ keyNames, keyNames.lookup p.1 = some p.2 ∧ p.1.length ≠ 1 := by
  decide

theorem lookup_keyNames : keyNames.lookup other = some k ↔ (other, k) ∈ keyNames := by
  constructor
  · intro h
    obtain ⟨l₁, l₂, hl, -⟩ := List.lookup_eq_some_iff.1 h
    rw [hl]
    exact List.mem_append_right _ List.mem_cons_self
  · intro h
    exact (keyNames_lookup _ h).1

theorem lookup_char (c : Char) : keyNames.lookup [c] = none := by
  cases h : keyNames.lookup [c] with
  | none => rfl
  | some k => exact absurd rfl (keyNames_lookup _ (lookup_keyNames.1 h)).2

theorem namedKey_eq (name : String) :
    namedKey name = (keyNames.lookup (lowerName name)).or
      ((asciiKey ((lowerName name).headD '\x00')).map Prod.fst) := rfl

theorem namedKey_of_names (h : Names (lowerName name) k) : namedKey name = some k := by
  rw [namedKey_eq]
  generalize lowerName name = other at h
  cases h with
  | table h => rw [lookup_keyNames.2 h, Option.some_or]
  | char h =>
    rw [lookup_char, Option.none_or, List.headD_cons, h]
    rfl

theorem namedKey_of_not_names (h : ∀ k, ¬Names (lowerName name) k) :
    namedKey name = (asciiKey ((lowerName name).headD '\x00')).map Prod.fst := by
  have hnone : keyNames.lookup (lowerName name) = none := by
    cases hl : keyNames.lookup (lowerName name) with
    | none => rfl
    | some k => exact absurd (.table (lookup_keyNames.1 hl)) (h k)
  rw [namedKey_eq, hnone, Option.none_or]

/-- The keyboard presses or releases just the key that the name stands for, and none without one,
where there is such a key or the name begins with a character that has no key. -/
theorem key_presses_named (name : String) (down : Bool) :
    ((∀ k, Names (lowerName name) k → Injector.key name down = [.key k down, .syn]) ∧
      ((∀ k, ¬Names (lowerName name) k) → Injector.key name down = [])) ↔
    (∃ k, Names (lowerName name) k) ∨ asciiKey ((lowerName name).headD '\x00') = none := by
  by_cases hnamed : ∃ k, Names (lowerName name) k
  · refine iff_of_true ⟨?_, ?_⟩ (.inl hnamed)
    · intro k hk
      rw [Injector.key, namedKey_of_names hk]
      rfl
    · intro hnone
      obtain ⟨k, hk⟩ := hnamed
      exact absurd hk (hnone k)
  · have hnone : ∀ k, ¬Names (lowerName name) k := not_exists.1 hnamed
    rw [Injector.key, namedKey_of_not_names hnone]
    cases hc : asciiKey ((lowerName name).headD '\x00') with
    | none => simp [hnone]
    | some p => simp [hnone]

/-- The name of a function key presses a letter. -/
theorem unknown_key_presses :
    ¬∀ (name : String) (down : Bool),
      (∀ k, Names (lowerName name) k → Injector.key name down = [.key k down, .syn]) ∧
        ((∀ k, ¬Names (lowerName name) k) → Injector.key name down = []) := by
  intro h
  have hnone : ∀ k, ¬Names (lowerName "f1") k := by
    intro k hk
    have hlower : lowerName "f1" = ['f', '1'] := by decide
    have hlookup : keyNames.lookup ['f', '1'] = none := by decide
    rw [hlower] at hk
    cases hk with
    | table hk => cases hlookup.symm.trans (lookup_keyNames.2 hk)
  have hkey : Injector.key "f1" true = [.key .keyF true, .syn] := by decide
  have hnil := (h "f1" true).2 hnone
  rw [hkey] at hnil
  cases hnil

end DdrdeskHost
