import DdrdeskHost.Lib.Text

namespace DdrdeskHost
open Text
set_option autoImplicit true

/-- What `gen_range(100_000_000..1_000_000_000)` may give. -/
abbrev Draw := { n : Nat // 100000000 ≤ n ∧ n < 1000000000 }

/-- The files `connection-id` and `CONNECTION-ID.txt`, where they are there. -/
structure IdFiles where
  connectionId : Option ByteArray := none
  pretty : Option ByteArray := none

inductive IdError
  | invalidUtf8
  deriving DecidableEq

/-- `str::len`, which counts bytes. -/
def byteLen (s : Str) : Nat := (s.flatMap String.utf8EncodeChar).length

/-- Zeros in front of fewer than nine digits. -/
def generateId (n : Draw) : Str := (Nat.toDigits 10 n).leftpad 9 '0'

def idFile (id : Str) : String := String.ofList (id ++ ['\n'])

def prettyFile (id : Str) : String :=
  "DDRDesk connection ID\n\n  " ++ String.ofList id ++
    "\n\nEnter this 9-digit ID in the iOS app to connect.\n"

/-- Both files for an ID. -/
def IdFiles.written (id : Str) : IdFiles :=
  { connectionId := some (idFile id).toUTF8, pretty := some (prettyFile id).toUTF8 }

/-- The directory is there and files can be read and written; `read_to_string` still fails on bytes
that are not UTF-8. -/
def loadOrCreateId (d : IdFiles) (n : Draw) : IdFiles × Except IdError Str :=
  match d.connectionId with
  | none => (.written (generateId n), .ok (generateId n))
  | some bytes =>
    match String.fromUTF8? bytes with
    | none => (d, .error .invalidUtf8)
    | some text =>
      let s := trim text.toList
      if byteLen s = 9 ∧ s.all Char.isDigit then (d, .ok s)
      else (.written (generateId n), .ok (generateId n))

def regenId (n : Draw) : IdFiles × Except IdError Str :=
  (.written (generateId n), .ok (generateId n))

inductive IdCall
  | load (n : Draw)
  | regen (n : Draw)

def IdCall.run (d : IdFiles) : IdCall → IdFiles × Except IdError Str
  | load n => loadOrCreateId d n
  | regen n => regenId n

/-- The files and what the last call returned, after further calls. -/
def idAfter (t : IdFiles × Except IdError Str) (calls : List IdCall) :
    IdFiles × Except IdError Str :=
  calls.foldl (fun t c => c.run t.1) t

def IsId (s : Str) : Prop := s.length = 9 ∧ ∀ c ∈ s, c.isDigit

/-- The ID in the file, if it holds nine digits between white space. -/
def StoredId (d : IdFiles) (id : Str) : Prop :=
  IsId id ∧ ∃ bytes ∈ d.connectionId, ∃ text,
    String.fromUTF8? bytes = some text ∧ trim text.toList = id

/-- A load gives nine digits, and a fresh ID where the file has none; and after any calls, a load
gives what the last of them gave. -/
structure Heals (d : IdFiles) (n : Draw) : Prop where
  nine_digits : ∃ id, (loadOrCreateId d n).2 = .ok id ∧ IsId id
  fresh : (∀ id, ¬StoredId d id) →
    loadOrCreateId d n = (.written (generateId n), .ok (generateId n))
  stable : ∀ calls m, (loadOrCreateId (idAfter (loadOrCreateId d n) calls).1 m).2 =
    (idAfter (loadOrCreateId d n) calls).2

theorem utf8Size_of_isDigit {c : Char} (h : c.isDigit) : c.utf8Size = 1 := by
  have hle : c.val ≤ 0x7f := by
    rw [Char.isDigit_iff_toNat] at h
    exact UInt32.le_iff_toNat_le.2 (h.2.trans (by decide))
  exact if_pos hle

theorem byteLen_digits (h : ∀ c ∈ s, c.isDigit) : byteLen s = s.length := by
  rw [byteLen]
  induction s with
  | nil => rfl
  | cons c s ih =>
    obtain ⟨hc, hs⟩ := List.forall_mem_cons.1 h
    rw [List.flatMap_cons, List.length_append, String.length_utf8EncodeChar,
      utf8Size_of_isDigit hc, ih hs, List.length_cons, Nat.add_comm]

theorem isId_iff : byteLen s = 9 ∧ s.all Char.isDigit ↔ IsId s := by
  rw [List.all_eq_true]
  constructor
  · rintro ⟨hlen, hall⟩
    exact ⟨(byteLen_digits hall).symm.trans hlen, hall⟩
  · rintro ⟨hlen, hall⟩
    exact ⟨(byteLen_digits hall).trans hlen, hall⟩

theorem fromUTF8?_toUTF8 (s : String) : String.fromUTF8? s.toUTF8 = some s :=
  dif_pos s.isValidUTF8

theorem isId_generateId (n : Draw) : IsId (generateId n) := by
  have hle := (Nat.length_toDigits_le_iff (b := 10) (k := 9) (by decide) (by decide)).2 n.2.2
  constructor
  · rw [generateId, List.length_leftpad, Nat.max_eq_left hle]
  · intro c hc
    rcases List.mem_append.1 hc with hc | hc
    · rw [List.eq_of_mem_replicate hc]
      rfl
    · exact Nat.isDigit_of_mem_toDigits (by decide) (by decide) hc

theorem storedId_written (h : IsId s) : StoredId (.written s) s := by
  refine ⟨h, _, rfl, idFile s, fromUTF8?_toUTF8 _, ?_⟩
  rw [idFile, String.toList_ofList]
  apply trim_concat_white
  · intro c hc
    cases hw : isWhite c with
    | false => rfl
    | true => exact absurd (h.2 c hc) (by simp [isDigit_of_isWhite hw])
  · rfl

theorem load_stored (h : StoredId d s) (n : Draw) : loadOrCreateId d n = (d, .ok s) := by
  obtain ⟨hid, bytes, hb, text, ht, htrim⟩ := h
  have hsome : d.connectionId = some bytes := hb
  rw [loadOrCreateId, hsome]
  simp only [ht, htrim, if_pos (isId_iff.2 hid)]

theorem load_fresh (hv : ∀ bytes ∈ d.connectionId, bytes.IsValidUTF8)
    (h : ∀ id, ¬StoredId d id) (n : Draw) :
    loadOrCreateId d n = (.written (generateId n), .ok (generateId n)) := by
  rw [loadOrCreateId]
  cases hb : d.connectionId with
  | none => rfl
  | some bytes =>
    have ht : String.fromUTF8? bytes = some (String.fromUTF8 bytes (hv bytes hb)) :=
      dif_pos (hv bytes hb)
    have hnot : ¬IsId (trim (String.fromUTF8 bytes (hv bytes hb)).toList) := fun hid =>
      h _ ⟨hid, bytes, hb, _, ht, rfl⟩
    simp only [ht, if_neg (isId_iff.not.2 hnot)]

/-- The last call returned the ID that is in the file. -/
def IdKept (t : IdFiles × Except IdError Str) : Prop := ∃ id, t.2 = .ok id ∧ StoredId t.1 id

theorem idKept_written (n : Draw) : IdKept (.written (generateId n), .ok (generateId n)) :=
  ⟨_, rfl, storedId_written (isId_generateId n)⟩

theorem IdKept.run (h : IdKept t) (c : IdCall) : IdKept (c.run t.1) := by
  cases c with
  | load n =>
    obtain ⟨id, -, hs⟩ := h
    rw [IdCall.run, load_stored hs]
    exact ⟨id, rfl, hs⟩
  | regen n => exact idKept_written n

theorem IdKept.after (h : IdKept t) (calls : List IdCall) : IdKept (idAfter t calls) := by
  induction calls generalizing t with
  | nil => exact h
  | cons c calls ih => exact ih (h.run c)

theorem idKept_load (hv : ∀ bytes ∈ d.connectionId, bytes.IsValidUTF8) (n : Draw) :
    IdKept (loadOrCreateId d n) := by
  by_cases hs : ∃ id, StoredId d id
  · obtain ⟨id, hs⟩ := hs
    rw [load_stored hs]
    exact ⟨id, rfl, hs⟩
  · rw [load_fresh hv (not_exists.1 hs)]
    exact idKept_written n

/-- The connection ID heals and is stable just where its file is absent or holds UTF-8. -/
theorem connection_id_heals (d : IdFiles) (n : Draw) :
    Heals d n ↔ ∀ bytes ∈ d.connectionId, bytes.IsValidUTF8 := by
  constructor
  · rintro ⟨⟨id, hload, -⟩, -, -⟩ bytes hb
    by_contra hv
    have hsome : d.connectionId = some bytes := hb
    have hnone : String.fromUTF8? bytes = none := dif_neg hv
    rw [loadOrCreateId, hsome] at hload
    simp only [hnone, reduceCtorEq] at hload
  · intro hv
    refine ⟨?_, fun h => load_fresh hv h n, ?_⟩
    · obtain ⟨id, hid, hs⟩ := idKept_load hv n
      exact ⟨id, hid, hs.1⟩
    · intro calls m
      obtain ⟨id, hid, hs⟩ := (idKept_load hv n).after calls
      rw [hid, load_stored hs]

/-- A file that is not UTF-8 makes the call fail. -/
theorem connection_id_stuck : ¬∀ (d : IdFiles) (n : Draw), Heals d n := by
  intro h
  obtain ⟨⟨id, hload, -⟩, -, -⟩ :=
    h { connectionId := some ⟨#[0xff]⟩ } ⟨123456789, by decide, by decide⟩
  have hbad : (loadOrCreateId { connectionId := some ⟨#[0xff]⟩ }
      ⟨123456789, by decide, by decide⟩).2 = .error .invalidUtf8 := by decide
  cases hbad.symm.trans hload

end DdrdeskHost
