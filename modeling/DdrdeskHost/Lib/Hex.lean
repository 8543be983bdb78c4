import DdrdeskHost.Lib.Text

namespace Text
set_option autoImplicit true

/-- The value of a hexadecimal digit. -/
def hexDigit (c : Char) : Option Nat :=
  if c.isDigit then some (c.toNat - 48)
  else if 'a' ≤ c ∧ c ≤ 'f' then some (c.toNat - 87)
  else if 'A' ≤ c ∧ c ≤ 'F' then some (c.toNat - 55)
  else none

/-- The number that hexadecimal digits spell; `none` for anything else and for no digits. -/
def parseHex (s : Str) : Option Nat :=
  if s = [] then none else s.foldlM (fun n c => (hexDigit c).map fun d => n * 16 + d) 0

theorem hexDigit_digitChar : ∀ d < 16, hexDigit d.digitChar = some d := by decide

theorem foldlM_toDigits (n : Nat) :
    (Nat.toDigits 16 n).foldlM (fun n c => (hexDigit c).map fun d => n * 16 + d) 0 = some n := by
  induction n using Nat.strongRecOn with
  | ind n ih =>
    rw [Nat.toDigits_eq_if (by decide)]
    split
    · next hn => simp [hexDigit_digitChar n hn]
    · next hn =>
      have hdigit := hexDigit_digitChar (n % 16) (Nat.mod_lt n (by decide))
      rw [List.foldlM_append, ih (n / 16) (by omega)]
      simp [hdigit, Nat.div_add_mod']

theorem parseHex_toDigits (n : Nat) : parseHex (Nat.toDigits 16 n) = some n := by
  rw [parseHex, if_neg Nat.toDigits_ne_nil, foldlM_toDigits]

theorem mem_toDigits {c : Char} (h : c ∈ Nat.toDigits 16 n) : ∃ d < 16, c = d.digitChar := by
  induction n using Nat.strongRecOn with
  | ind n ih =>
    rw [Nat.toDigits_eq_if (by decide)] at h
    split at h
    · next hn => exact ⟨n, hn, List.mem_singleton.1 h⟩
    · next hn =>
      rcases List.mem_append.1 h with h | h
      · exact ih (n / 16) (by omega) h
      · exact ⟨n % 16, Nat.mod_lt n (by decide), List.mem_singleton.1 h⟩

end Text
