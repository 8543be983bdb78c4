import DdrdeskHost.Lib.Bytes

set_option autoImplicit true

/-- A self-delimiting code: decoding undoes encoding whatever follows, and accepts nothing else. -/
structure PrefixCode (α β : Type*) where
  Valid : α → Prop
  encode : α → List β
  decode : List β → Option (α × List β)
  decode_encode : Valid a → decode (encode a ++ s) = some (a, s)
  encode_decode : decode s = some (a, r) → Valid a ∧ s = encode a ++ r
  encode_ne_nil : encode a ≠ []

namespace PrefixCode
variable (C : PrefixCode α β)

def encodeAll (as : List α) : List β := as.flatMap C.encode

@[simp] theorem encodeAll_nil : C.encodeAll [] = [] := rfl

@[simp] theorem encodeAll_cons (a : α) (as : List α) :
    C.encodeAll (a :: as) = C.encode a ++ C.encodeAll as := rfl

theorem encodeAll_singleton (a : α) : C.encodeAll [a] = C.encode a := List.append_nil _

@[simp] theorem encodeAll_append (as bs : List α) :
    C.encodeAll (as ++ bs) = C.encodeAll as ++ C.encodeAll bs :=
  List.flatMap_append

theorem length_lt_of_decode (h : C.decode s = some (a, r)) : r.length < s.length := by
  have hpos := List.length_pos_of_ne_nil (C.encode_ne_nil (a := a))
  rw [(C.encode_decode h).2, List.length_append]
  omega

@[simp] theorem decode_nil : C.decode [] = none := by
  cases h : C.decode [] with
  | none => rfl
  | some p => exact absurd (C.length_lt_of_decode h) (Nat.not_lt_zero _)

theorem encode_append_inj (ha : C.Valid a) (hb : C.Valid b)
    (h : C.encode a ++ r = C.encode b ++ s) : a = b ∧ r = s := by
  have he := (C.decode_encode (s := r) ha).symm.trans (h ▸ C.decode_encode hb)
  simpa only [Option.some.injEq, Prod.mk.injEq] using he

theorem decode_truncated (ha : C.Valid a) (h : p <+: C.encode a ++ s)
    (hlt : p.length < (C.encode a).length) : C.decode p = none := by
  cases hd : C.decode p with
  | none => rfl
  | some q =>
    obtain ⟨b, r⟩ := q
    obtain ⟨hb, hp⟩ := C.encode_decode hd
    obtain ⟨t, ht⟩ := h
    have hab := (C.encode_append_inj (r := r ++ t) hb ha (by rw [← ht, hp, List.append_assoc])).1
    have hle : (C.encode a).length ≤ p.length := by
      rw [hp, hab, List.length_append]
      exact Nat.le_add_right _ _
    omega

/-- Decode one item after another until decoding fails, with what is left then. -/
def decodeAll (s : List β) : List α × List β :=
  match _h : C.decode s with
  | none => ([], s)
  | some (a, r) => (a :: (decodeAll r).1, (decodeAll r).2)
termination_by s.length
decreasing_by all_goals exact C.length_lt_of_decode _h

theorem decodeAll_none (h : C.decode s = none) : C.decodeAll s = ([], s) := by
  rw [decodeAll]
  split
  · rfl
  · next hs => rw [h] at hs; cases hs

theorem decodeAll_some (h : C.decode s = some (a, r)) :
    C.decodeAll s = (a :: (C.decodeAll r).1, (C.decodeAll r).2) := by
  rw [decodeAll]
  split
  · next hs => rw [h] at hs; cases hs
  · next hs => rw [h] at hs; cases hs; rfl

theorem decodeAll_spec (s : List β) :
    s = C.encodeAll (C.decodeAll s).1 ++ (C.decodeAll s).2 ∧
      (∀ a ∈ (C.decodeAll s).1, C.Valid a) ∧ C.decode (C.decodeAll s).2 = none := by
  fun_induction C.decodeAll s with
  | case1 s h =>
    exact ⟨rfl, by simp, h⟩
  | case2 s a r h ih =>
    obtain ⟨hr, hv, hn⟩ := ih
    obtain ⟨ha, hs⟩ := C.encode_decode h
    have hsplit : s = C.encodeAll (a :: (C.decodeAll r).1) ++ (C.decodeAll r).2 := by
      rw [encodeAll_cons, List.append_assoc, ← hr, hs]
    have hvalid : ∀ b ∈ a :: (C.decodeAll r).1, C.Valid b := by
      intro b hb
      cases hb with
      | head => exact ha
      | tail _ hb => exact hv b hb
    exact ⟨hsplit, hvalid, hn⟩

theorem decodeAll_encodeAll_append (hv : ∀ a ∈ as, C.Valid a) (s : List β) :
    C.decodeAll (C.encodeAll as ++ s) = (as ++ (C.decodeAll s).1, (C.decodeAll s).2) := by
  induction as with
  | nil => rfl
  | cons a as ih =>
    have hd := C.decode_encode (s := C.encodeAll as ++ s) (hv a List.mem_cons_self)
    rw [encodeAll_cons, List.append_assoc, C.decodeAll_some hd,
      ih fun b hb => hv b (List.mem_cons_of_mem a hb)]
    rfl

theorem decodeAll_encodeAll (hv : ∀ a ∈ as, C.Valid a) :
    C.decodeAll (C.encodeAll as) = (as, []) := by
  have h := C.decodeAll_encodeAll_append hv []
  rwa [List.append_nil, C.decodeAll_none C.decode_nil, List.append_nil] at h

/-- Decode `n` items. -/
def decodeN : Nat → List β → Option (List α × List β)
  | 0, s => some ([], s)
  | n + 1, s =>
    match C.decode s with
    | none => none
    | some (a, r) => (decodeN n r).map fun p => (a :: p.1, p.2)

theorem decodeN_eq_some (h : C.decodeN n s = some (as, r)) :
    as.length = n ∧ (∀ a ∈ as, C.Valid a) ∧ s = C.encodeAll as ++ r := by
  induction n generalizing s as with
  | zero =>
    cases h
    exact ⟨rfl, by simp, rfl⟩
  | succ n ih =>
    rw [decodeN] at h
    split at h
    · cases h
    · next a s' hd =>
      obtain ⟨⟨bs, r'⟩, hn, he⟩ := Option.map_eq_some_iff.1 h
      cases he
      obtain ⟨hlen, hv, rfl⟩ := ih hn
      obtain ⟨ha, rfl⟩ := C.encode_decode hd
      refine ⟨congrArg (· + 1) hlen, ?_, (List.append_assoc _ _ _).symm⟩
      intro b hb
      cases hb with
      | head => exact ha
      | tail _ hb => exact hv b hb

theorem decodeN_encodeAll (hv : ∀ a ∈ as, C.Valid a) (s : List β) :
    C.decodeN as.length (C.encodeAll as ++ s) = some (as, s) := by
  induction as with
  | nil => rfl
  | cons a as ih =>
    rw [List.length_cons, decodeN, encodeAll_cons, List.append_assoc,
      C.decode_encode (hv a List.mem_cons_self)]
    simp only [ih fun b hb => hv b (List.mem_cons_of_mem a hb), Option.map_some]

theorem encodeAll_append_eq (hd : ∀ a ∈ ds, C.Valid a) (ha : ∀ a ∈ as, C.Valid a)
    (h : C.encodeAll ds ++ x = C.encodeAll as) :
    ∃ rest, as = ds ++ rest ∧ x = C.encodeAll rest := by
  have he := C.decodeAll_encodeAll_append hd x
  rw [h, C.decodeAll_encodeAll ha, Prod.mk.injEq] at he
  have hx := (C.decodeAll_spec x).1
  rw [← he.2, List.append_nil] at hx
  exact ⟨(C.decodeAll x).1, he.1, hx⟩

/-- `k` counts the items of `as` whose encodings lie within the first `n` symbols. -/
def Complete (as : List α) (n k : Nat) : Prop :=
  k ≤ as.length ∧ (C.encodeAll (as.take k)).length ≤ n ∧
    ∀ j ≤ as.length, (C.encodeAll (as.take j)).length ≤ n → j ≤ k

theorem Complete.zero (hlt : n < (C.encode a).length) : C.Complete (a :: as) n 0 := by
  refine ⟨Nat.zero_le _, Nat.zero_le _, ?_⟩
  intro j _ hl
  cases j with
  | zero => exact Nat.le_refl _
  | succ j =>
    rw [List.take_succ_cons, encodeAll_cons, List.length_append] at hl
    omega

theorem Complete.cons (h : C.Complete as n k) :
    C.Complete (a :: as) ((C.encode a).length + n) (k + 1) := by
  obtain ⟨hk, hl, hmax⟩ := h
  refine ⟨Nat.succ_le_succ hk, ?_, ?_⟩
  · rw [List.take_succ_cons, encodeAll_cons, List.length_append]
    exact Nat.add_le_add_left hl _
  · intro j hj hjl
    cases j with
    | zero => exact Nat.zero_le _
    | succ j =>
      rw [List.take_succ_cons, encodeAll_cons, List.length_append] at hjl
      exact Nat.succ_le_succ (hmax j (Nat.le_of_succ_le_succ hj) (Nat.le_of_add_le_add_left hjl))

/-- A truncated input yields the items that are complete in it; what is left is the cut item. -/
theorem decodeAll_truncated (hv : ∀ a ∈ as, C.Valid a) (hp : p <+: C.encodeAll as) :
    ∃ k r, C.Complete as p.length k ∧ C.decodeAll p = (as.take k, r) ∧
      r <+: C.encodeAll (as.drop k) := by
  induction as generalizing p with
  | nil =>
    have hnil := List.eq_nil_of_prefix_nil hp
    subst hnil
    exact ⟨0, [], ⟨Nat.le_refl _, Nat.le_refl _, fun j hj _ => hj⟩,
      C.decodeAll_none C.decode_nil, List.prefix_rfl⟩
  | cons a as ih =>
    have ha := hv a List.mem_cons_self
    rw [encodeAll_cons] at hp
    by_cases hlt : p.length < (C.encode a).length
    · exact ⟨0, p, .zero C hlt, C.decodeAll_none (C.decode_truncated ha hp hlt), hp⟩
    · -- the first item is complete, so the input is its encoding and a prefix of the others
      obtain ⟨q, rfl⟩ := List.prefix_of_prefix_length_le (List.prefix_append _ _) hp
        (Nat.le_of_not_lt hlt)
      have hq := (List.prefix_append_right_inj _).1 hp
      obtain ⟨k, r, hk, hd, hr⟩ := ih (fun b hb => hv b (List.mem_cons_of_mem a hb)) hq
      have hcomplete : C.Complete (a :: as) (C.encode a ++ q).length (k + 1) := by
        rw [List.length_append]
        exact .cons C hk
      have hdecode : C.decodeAll (C.encode a ++ q) = (a :: as.take k, r) := by
        rw [C.decodeAll_some (C.decode_encode ha), hd]
      exact ⟨k + 1, r, hcomplete, hdecode, hr⟩

end PrefixCode
