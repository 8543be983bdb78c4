import DdrdeskHost.Lib.PrefixCode

namespace Bytes
set_option autoImplicit true

/-- Byte strings, each behind its length in `k` big-endian bytes. -/
def blockCode (k : Nat) (hk : 0 < k) : PrefixCode (List UInt8) UInt8 where
  Valid x := x.length < 256 ^ k
  encode x := toBE k x.length ++ x
  decode s := (readExact k s).bind fun p => readExact (ofBE p.1) p.2
  decode_encode {x s} h := by
    rw [List.append_assoc, readExact_append (length_toBE k _), Option.bind_some, ofBE_toBE h,
      readExact_append rfl]
  encode_decode {s x r} h := by
    obtain ⟨⟨len, s'⟩, h₁, h₂⟩ := Option.bind_eq_some_iff.1 h
    obtain ⟨rfl, hlen⟩ := readExact_eq_some h₁
    obtain ⟨rfl, hx⟩ := readExact_eq_some h₂
    have hlt := ofBE_lt len
    have hbytes := toBE_ofBE len
    rw [hlen] at hlt hbytes
    exact ⟨hx ▸ hlt, by rw [hx, hbytes, List.append_assoc]⟩
  encode_ne_nil {x} h := by
    have hlen := congrArg List.length h
    rw [List.length_append, length_toBE, List.length_nil] at hlen
    omega

theorem blockCode_decode_short (hk : 0 < k) (h : s.length < k) :
    (blockCode k hk).decode s = none := by
  change (readExact k s).bind _ = none
  rw [readExact_eq_none.2 h]
  rfl

theorem blockCode_decode (hk : 0 < k) (h : len.length = k) (s : List UInt8) :
    (blockCode k hk).decode (len ++ s) = readExact (ofBE len) s := by
  change (readExact k (len ++ s)).bind _ = _
  rw [readExact_append h]
  rfl

theorem blockCode_decode_eq_none {hk : 0 < k} (h : (blockCode k hk).decode s = none) :
    s.length < k ∨ ∃ len body, s = len ++ body ∧ len.length = k ∧ body.length < ofBE len := by
  by_cases hlt : s.length < k
  · exact .inl hlt
  · have hlen : (s.take k).length = k := List.length_take_of_le (Nat.le_of_not_lt hlt)
    have hs := (List.take_append_drop k s).symm
    rw [hs, blockCode_decode hk hlen] at h
    exact .inr ⟨s.take k, s.drop k, hs, hlen, readExact_eq_none.1 h⟩

end Bytes
