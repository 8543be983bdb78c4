import DdrdeskHost.ConnectionId
import DdrdeskHost.Lib.Files
import DdrdeskHost.Lib.Runs
import DdrdeskHost.StatusFile

namespace DdrdeskHost
open Text
set_option autoImplicit true

/-- The files that hold the ID. -/
inductive IdPath
  | connectionId
  | pretty
  deriving DecidableEq

def IdFiles.files (d : IdFiles) : Files IdPath ByteArray
  | .connectionId => d.connectionId
  | .pretty => d.pretty

/-- What is written for an ID, in order. -/
def idWrites (id : Str) : List (IdPath × ByteArray) :=
  [(.connectionId, (idFile id).toUTF8), (.pretty, (prettyFile id).toUTF8)]

/-- What a call writes on its way to its result. -/
def IdCall.writes (d : IdFiles) : IdCall → List (IdPath × ByteArray)
  | load n =>
    match d.connectionId with
    | none => idWrites (generateId n)
    | some bytes =>
      match String.fromUTF8? bytes with
      | none => []
      | some text =>
        let s := trim text.toList
        if byteLen s = 9 ∧ s.all Char.isDigit then [] else idWrites (generateId n)
  | regen n => idWrites (generateId n)

/-- A part of a file, from its beginning. -/
def Begins (b b' : ByteArray) : Prop := b.data.toList <+: b'.data.toList

/-- The data directory with the daemon that runs on it, and what can be read of `status.json`. -/
structure Desk where
  files : IdFiles
  running : Option HostState := none
  status : Option Snapshot := none

/-- `called` is `ddrdeskd --print-id`, `--regen-id`, or a start of the daemon that fails before it
writes `status.json`; `unbound` is a start that writes it and then finds the port taken. `killed` is
a call that is killed, `torn` the daemon, and `unwritten` a start, killed as it writes
`status.json`. -/
inductive DeskEvent
  | called (c : IdCall) (r : Except IdError Str)
  | started (n : Draw) (id : Str)
  | unbound (n : Draw) (id : Str)
  | reported
  | killed (c : IdCall)
  | torn
  | unwritten (n : Draw)
  | stopped

inductive DeskStep (s : Desk) : DeskEvent → Desk → Prop
  | called (c : IdCall) :
    DeskStep s (.called c (c.run s.files).2) { s with files := (c.run s.files).1 }
  | started {id : Str} (n : Draw) (hr : s.running = none)
      (hid : (loadOrCreateId s.files n).2 = .ok id) (H : HostState)
      (hH : H.id = String.ofList id) :
    DeskStep s (.started n id)
      { files := (loadOrCreateId s.files n).1, running := some H, status := some (H.snapshot 0) }
  | unbound {id : Str} (n : Draw) (hid : (loadOrCreateId s.files n).2 = .ok id) (H : HostState)
      (hH : H.id = String.ofList id) :
    DeskStep s (.unbound n id)
      { s with files := (loadOrCreateId s.files n).1, status := some (H.snapshot 0) }
  | reported (hr : s.running = some H) (clients : Nat) :
    DeskStep s .reported { s with status := some (H.snapshot clients) }
  | killed (c : IdCall) (h : Files.Torn Begins s.files.files (c.writes s.files) d.files) :
    DeskStep s (.killed c) { s with files := d }
  | torn : DeskStep s .torn { s with running := none, status := none }
  | unwritten (n : Draw) :
    DeskStep s (.unwritten n)
      { s with files := (loadOrCreateId s.files n).1, status := none }
  | stopped : DeskStep s .stopped { s with running := none }

/-- The call returned this. -/
def DeskEvent.result : DeskEvent → Option (Except IdError Str)
  | called _ r => some r
  | started _ id | unbound _ id => some (.ok id)
  | _ => none

/-- The event may put another ID in place of the one in the file. -/
def DeskEvent.regens : DeskEvent → Bool
  | called (.regen _) _ | killed (.regen _) => true
  | _ => false

theorem IdFiles.files_inj {d d' : IdFiles} (h : d.files = d'.files) : d = d' := by
  have hc := congrFun h .connectionId
  have hp := congrFun h .pretty
  simp only [files] at hc hp
  cases d
  cases d'
  simp_all

theorem files_written (id : Str) (d : IdFiles) :
    (IdFiles.written id).files = d.files.writes (idWrites id) := by
  funext p
  cases p with
  | connectionId =>
    rw [idWrites, Files.writes_cons, Files.writes_cons, Files.writes_nil,
      Files.write_of_ne _ _ (by simp), Files.write_self]
    rfl
  | pretty =>
    rw [idWrites, Files.writes_cons, Files.writes_cons, Files.writes_nil, Files.write_self]
    rfl

theorem load_cases (d : IdFiles) (n : Draw) :
    (loadOrCreateId d n).1 = d ∧ IdCall.writes d (.load n) = [] ∨
      loadOrCreateId d n = (.written (generateId n), .ok (generateId n)) ∧
        IdCall.writes d (.load n) = idWrites (generateId n) := by
  cases hb : d.connectionId with
  | none =>
    refine .inr ⟨?_, ?_⟩
    · simp only [loadOrCreateId, hb]
    · simp only [IdCall.writes, hb]
  | some bytes =>
    cases ht : String.fromUTF8? bytes with
    | none =>
      refine .inl ⟨?_, ?_⟩
      · simp only [loadOrCreateId, hb, ht]
      · simp only [IdCall.writes, hb, ht]
    | some text =>
      by_cases hid : byteLen (trim text.toList) = 9 ∧ (trim text.toList).all Char.isDigit
      · refine .inl ⟨?_, ?_⟩
        · simp only [loadOrCreateId, hb, ht, if_pos hid]
        · simp only [IdCall.writes, hb, ht, if_pos hid]
      · refine .inr ⟨?_, ?_⟩
        · simp only [loadOrCreateId, hb, ht, if_neg hid]
        · simp only [IdCall.writes, hb, ht, if_neg hid]

theorem IdCall.files_run (c : IdCall) (d : IdFiles) :
    (c.run d).1.files = d.files.writes (c.writes d) := by
  cases c with
  | load n =>
    rcases load_cases d n with ⟨hd, hw⟩ | ⟨hd, hw⟩
    · rw [run, hd, hw, Files.writes_nil]
    · rw [run, hd, hw, files_written]
  | regen n => exact files_written _ d

theorem writes_stored {id : Str} (h : StoredId d id) (n : Draw) :
    IdCall.writes d (.load n) = [] := by
  obtain ⟨hid, bytes, hb, text, ht, htrim⟩ := h
  have hsome : d.connectionId = some bytes := hb
  simp only [IdCall.writes, hsome, ht, htrim, if_pos (isId_iff.2 hid)]

theorem IdCall.writes_cases (c : IdCall) (d : IdFiles) :
    c.writes d = [] ∨ ∃ n, c.writes d = idWrites (generateId n) := by
  cases c with
  | load n =>
    rcases load_cases d n with ⟨-, hw⟩ | ⟨-, hw⟩
    · exact .inl hw
    · exact .inr ⟨n, hw⟩
  | regen n => exact .inr ⟨n, rfl⟩

theorem isValidUTF8_begins (h : ∀ c ∈ s, c.utf8Size = 1)
    (hb : Begins b (String.ofList s).toUTF8) : b.IsValidUTF8 := by
  have hflat (s : Str) (h : ∀ c ∈ s, c.utf8Size = 1) :
      s.flatMap String.utf8EncodeChar = s.map fun c => c.val.toUInt8 := by
    induction s with
    | nil => rfl
    | cons c s ih =>
      obtain ⟨hc, hs⟩ := List.forall_mem_cons.1 h
      rw [List.flatMap_cons, String.utf8EncodeChar_eq_singleton hc, ih hs]
      rfl
  have hdata : (String.ofList s).toUTF8.data.toList = s.map fun c => c.val.toUInt8 := by
    have hbytes : (String.ofList s).toUTF8 = (s.flatMap String.utf8EncodeChar).toByteArray :=
      String.toByteArray_ofList
    rw [hbytes, List.data_toByteArray, hflat s h]
  rw [Begins, hdata, List.prefix_iff_eq_take, ← List.map_take,
    ← hflat _ fun c hc => h c (List.mem_of_mem_take hc)] at hb
  refine ⟨s.take b.data.toList.length, ?_⟩
  apply ByteArray.ext
  rw [List.utf8Encode, List.data_toByteArray, ← hb, Array.toArray_toList]

theorem ascii_idFile (n : Draw) : ∀ c ∈ generateId n ++ ['\n'], c.utf8Size = 1 := by
  intro c hc
  rcases List.mem_append.1 hc with hc | hc
  · exact utf8Size_of_isDigit ((isId_generateId n).2 c hc)
  · rw [List.mem_singleton.1 hc]
    rfl

/-- The ID's file is absent or can be read as text. -/
def IdFiles.Readable (d : IdFiles) : Prop := ∀ bytes ∈ d.connectionId, bytes.IsValidUTF8

theorem readable_empty : ({} : IdFiles).Readable := by
  intro bytes hb
  cases hb

theorem readable_torn {d d' : IdFiles} (hd : d.Readable)
    (h : Files.Torn Begins d.files (idWrites (generateId n)) d'.files) :
    d'.Readable := by
  intro bytes hb
  have hb' : d'.files .connectionId = some bytes := hb
  have hwhole : Begins (idFile (generateId n)).toUTF8 (idFile (generateId n)).toUTF8 :=
    List.prefix_rfl
  rcases h.pair with h | ⟨b, hpre, h⟩ | h | ⟨p, -, h⟩ | h
  · rw [h] at hb'
    exact hd bytes hb'
  · rw [h, Files.write_self] at hb'
    cases hb'
    exact isValidUTF8_begins (ascii_idFile n) hpre
  · rw [h, Files.write_self] at hb'
    cases hb'
    exact isValidUTF8_begins (ascii_idFile n) hwhole
  · rw [h, Files.write_of_ne _ _ (by simp), Files.write_self] at hb'
    cases hb'
    exact isValidUTF8_begins (ascii_idFile n) hwhole
  · rw [h, Files.writes_cons, Files.writes_cons, Files.writes_nil,
      Files.write_of_ne _ _ (by simp), Files.write_self] at hb'
    cases hb'
    exact isValidUTF8_begins (ascii_idFile n) hwhole

theorem IdFiles.Readable.torn {d d' : IdFiles} (hd : d.Readable) {c : IdCall}
    (h : Files.Torn Begins d.files (c.writes d) d'.files) : d'.Readable := by
  rcases c.writes_cases d with hw | ⟨n, hw⟩
  · rw [hw] at h
    rwa [IdFiles.files_inj h.nil]
  · rw [hw] at h
    exact readable_torn hd h

theorem IdFiles.Readable.run {d : IdFiles} (hd : d.Readable) (c : IdCall) :
    (c.run d).1.Readable := by
  have hall : Files.Torn Begins d.files (c.writes d) (c.run d).1.files := by
    rw [c.files_run]
    exact .all d.files _
  exact hd.torn hall

theorem IdFiles.Readable.returned {d : IdFiles} (hd : d.Readable) (c : IdCall) :
    IdKept (c.run d) := by
  cases c with
  | load n => exact idKept_load hd n
  | regen n => exact idKept_written n

theorem StoredId.call {id : Str} (h : StoredId d id) {c : IdCall}
    (hc : ∀ n, c ≠ .regen n) : c.run d = (d, .ok id) ∧ c.writes d = [] := by
  cases c with
  | load n => exact ⟨load_stored h n, writes_stored h n⟩
  | regen n => exact absurd rfl (hc n)

section
variable {s t : Desk} {e : DeskEvent} {es es' : List DeskEvent} {id : Str}

theorem DeskStep.readable (h : DeskStep s e t) (hs : s.files.Readable) : t.files.Readable := by
  cases h with
  | called c => exact hs.run c
  | started n | unbound n | unwritten n => exact hs.run (.load n)
  | killed c h => exact hs.torn h
  | reported | torn | stopped => exact hs

theorem DeskStep.result (h : DeskStep s e t) (hs : s.files.Readable) (hr : e.result = some r) :
    ∃ id, r = .ok id ∧ StoredId t.files id := by
  cases h with
  | called c =>
    cases hr
    exact hs.returned c
  | started n _ hid | unbound n hid =>
    cases hr
    obtain ⟨id, hid', hst⟩ := hs.returned (.load n)
    cases hid.symm.trans hid'
    exact ⟨_, rfl, hst⟩
  | reported | killed | torn | unwritten | stopped => cases hr

/-- Only a regeneration replaces the ID in the file, whatever else is done or killed. -/
theorem DeskStep.stored (h : DeskStep s e t) (hs : StoredId s.files id) (he : e.regens = false) :
    StoredId t.files id ∧ ∀ r, e.result = some r → r = .ok id := by
  cases h with
  | called c =>
    have hc : ∀ n, c ≠ .regen n := by
      rintro n rfl
      cases he
    rw [(hs.call hc).1]
    refine ⟨hs, ?_⟩
    intro r hr
    cases hr
    rfl
  | started n _ hid | unbound n hid =>
    rw [load_stored hs] at hid ⊢
    cases hid
    refine ⟨hs, ?_⟩
    intro r hr
    cases hr
    rfl
  | unwritten n =>
    rw [load_stored hs]
    exact ⟨hs, by simp [DeskEvent.result]⟩
  | killed c ht =>
    have hc : ∀ n, c ≠ .regen n := by
      rintro n rfl
      cases he
    rw [(hs.call hc).2] at ht
    rw [IdFiles.files_inj ht.nil]
    exact ⟨hs, by simp [DeskEvent.result]⟩
  | reported | torn | stopped => exact ⟨hs, by simp [DeskEvent.result]⟩

theorem run_stored (h : Run DeskStep s es t) (hs : StoredId s.files id)
    (hes : ∀ e ∈ es, e.regens = false) :
    StoredId t.files id ∧ ∀ e ∈ es, ∀ r, e.result = some r → r = .ok id := by
  induction h with
  | nil => exact ⟨hs, by simp⟩
  | cons hst _ ih =>
    obtain ⟨he, hes⟩ := List.forall_mem_cons.1 hes
    obtain ⟨hs, hr⟩ := hst.stored hs he
    obtain ⟨ht, hrs⟩ := ih hs hes
    exact ⟨ht, List.forall_mem_cons.2 ⟨hr, hrs⟩⟩

end

/-- From a readable ID's file, wherever calls and the daemon are killed: no call ever fails, each
gives nine digits, and the calls after it give the same ID until one regenerates it, or is killed
while it does. -/
theorem id_survives_kills (s t : Desk) (es : List DeskEvent) (hs : s.files.Readable)
    (h : Run DeskStep s es t) :
    (∀ e ∈ es, ∀ r, e.result = some r → ∃ id, r = .ok id ∧ IsId id) ∧
    ∀ p e m e' q r r', es = p ++ e :: m ++ e' :: q → e.result = some r → e'.result = some r' →
      (∀ x ∈ m ++ [e'], x.regens = false) → r' = r := by
  have hread (p : List DeskEvent) {u : Desk} (hp : Run DeskStep s p u) : u.files.Readable :=
    hp.invariant (I := fun u => u.files.Readable) (fun _ _ _ hu hst => hst.readable hu) hs
  refine ⟨?_, ?_⟩
  · intro e he r hr
    obtain ⟨p, q, rfl⟩ := List.append_of_mem he
    obtain ⟨u, hp, hq⟩ := h.split
    cases hq with
    | cons hst _ =>
      obtain ⟨id, hid, hst⟩ := hst.result (hread p hp) hr
      exact ⟨id, hid, hst.1⟩
  · rintro p e m e' q r r' rfl hr hr' hm
    rw [List.append_assoc, List.cons_append] at h
    obtain ⟨u, hp, hq⟩ := h.split
    cases hq with
    | cons hst hq =>
      obtain ⟨id, rfl, hid⟩ := hst.result (hread p hp) hr
      rw [List.append_cons] at hq
      obtain ⟨v, hm', -⟩ := hq.split
      exact (run_stored hm' hid hm).2 e' (List.mem_append_right m List.mem_cons_self) r' hr'

def ones : Draw := ⟨111111111, by decide⟩

def twos : Draw := ⟨222222222, by decide⟩

/-- The ID's file has been made and not yet written. -/
def idCut : IdFiles := { connectionId := some ByteArray.empty }

theorem idCut_torn : Files.Torn Begins ({} : IdFiles).files (IdCall.writes {} (.load ones))
    idCut.files := by
  have hcut : idCut.files = ({} : IdFiles).files.write (.connectionId, ByteArray.empty) := by
    funext p
    cases p with
    | connectionId => rfl
    | pretty => rfl
  have hpre : Begins ByteArray.empty (idFile (generateId ones)).toUTF8 := List.nil_prefix
  rw [hcut]
  exact .within _ IdPath.connectionId hpre _

theorem DeskStep.loads {s : Desk} {id : Str} (h : StoredId s.files id) (n : Draw) :
    DeskStep s (.called (.load n) (.ok id)) s := by
  have hstep := DeskStep.called (s := s) (.load n)
  rwa [IdCall.run, load_stored h] at hstep

theorem DeskStep.failsToBind {s : Desk} {id : Str} (h : StoredId s.files id) (n : Draw)
    {H : HostState} (hH : H.id = String.ofList id) :
    DeskStep s (.unbound n id) { s with status := some (H.snapshot 0) } := by
  have hstep := DeskStep.unbound (s := s) n (congrArg Prod.snd (load_stored h n)) H hH
  rwa [load_stored h] at hstep

/-- A start is killed, another ID is made, and it is read. -/
theorem id_survives_kills_cut :
    let es := [DeskEvent.killed (.load ones), .called (.regen twos) (.ok (generateId twos)),
      .called (.load ones) (.ok (generateId twos))]
    (∀ e ∈ es, ∀ r, e.result = some r → ∃ id, r = .ok id ∧ IsId id) ∧
    ∀ p e m e' q r r', es = p ++ e :: m ++ e' :: q → e.result = some r → e'.result = some r' →
      (∀ x ∈ m ++ [e'], x.regens = false) → r' = r :=
  id_survives_kills { files := {} } { files := .written (generateId twos) } _
    readable_empty
    (.cons (.killed (.load ones) idCut_torn)
      (.cons (.called (.regen twos))
        (.single (.loads (storedId_written (isId_generateId twos)) ones))))

/-- White space as `str.strip` of Python has it. -/
def isStripped (c : Char) : Bool :=
  isWhite c || (0x1c ≤ c.toNat && c.toNat ≤ 0x1f)

def strip (s : Str) : Str := (s.dropWhile isStripped).rdropWhile isStripped

/-- `read_text` gives every line end as a newline. -/
def universalNewlines : Str → Str
  | '\r' :: '\n' :: s => '\n' :: universalNewlines s
  | '\r' :: s => '\n' :: universalNewlines s
  | c :: s => c :: universalNewlines s
  | [] => []

/-- The panel's `current_id`: the file's text, or else what `status.json` says. -/
def currentId (s : Desk) : Except IdError Str :=
  match s.files.connectionId with
  | some bytes =>
    match String.fromUTF8? bytes with
    | none => .error .invalidUtf8
    | some text => .ok (strip (universalNewlines text.toList))
  | none => .ok ((s.status.map fun st => st.id.toList).getD [])

/-- What the panel shows as the ID. -/
def idLabel (s : Desk) : Except IdError Str :=
  let pretty := (s.status.map fun st => st.idPretty.toList).getD []
  if pretty = [] then
    (currentId s).map fun ident =>
      if ident.length = 9 then
        ident.take 3 ++ ' ' :: (ident.drop 3).take 3 ++ ' ' :: (ident.drop 6).take 3
      else if ident = [] then "— — —".toList
      else ident
  else .ok pretty

/-- The ID in the file after these events, if it was this one before. -/
def regenerated (id : Str) (es : List DeskEvent) : Str :=
  es.foldl (fun id e =>
    match e with
    | .called (.regen n) _ => generateId n
    | _ => id) id

/-- The ID that `status.json` shows after these events of a daemon that runs on `own`, if the ID's
file held the one and it showed the other. -/
def shownId (own : Str) : Str → Str → List DeskEvent → Str
  | _, shown, [] => shown
  | _, shown, .called (.regen n) _ :: es => shownId own (generateId n) shown es
  | file, _, .unbound .. :: es => shownId own file file es
  | file, _, .reported :: es => shownId own file own es
  | file, shown, _ :: es => shownId own file shown es

/-- The daemon goes on running, and no regeneration and no write of `status.json` is cut short. -/
def DeskEvent.carriesOn : DeskEvent → Bool
  | called .. | unbound .. | reported | killed (.load _) => true
  | _ => false

theorem universalNewlines_white (h : ∀ c ∈ s, isWhite c) :
    ∀ c ∈ universalNewlines s, isStripped c := by
  have hn : isStripped '\n' := by decide
  fun_induction universalNewlines s with
  | case1 s ih =>
    exact List.forall_mem_cons.2 ⟨hn, ih fun c hc => h c (by simp [hc])⟩
  | case2 s _ ih =>
    exact List.forall_mem_cons.2 ⟨hn, ih fun c hc => h c (by simp [hc])⟩
  | case3 c s _ _ ih =>
    refine List.forall_mem_cons.2 ⟨?_, ih fun c hc => h c (by simp [hc])⟩
    rw [isStripped, h c List.mem_cons_self, Bool.true_or]
  | case4 => simp

theorem universalNewlines_cons (h : c ≠ '\r') (s : Str) :
    universalNewlines (c :: s) = c :: universalNewlines s := by
  rw [universalNewlines]
  · simp [h]
  · simp [h]

theorem universalNewlines_cr (h : ∀ t, s ≠ '\n' :: t) :
    universalNewlines ('\r' :: s) = '\n' :: universalNewlines s := by
  rw [universalNewlines]
  exact h

theorem universalNewlines_append (h : c ≠ '\n') (s t : Str) :
    universalNewlines (s ++ c :: t) = universalNewlines s ++ universalNewlines (c :: t) := by
  fun_induction universalNewlines s with
  | case1 s ih => rw [List.cons_append, List.cons_append, universalNewlines, ih, List.cons_append]
  | case2 s hs ih =>
    rw [List.cons_append, universalNewlines_cr, ih, List.cons_append]
    intro u hu
    cases s with
    | nil => exact h (List.cons.inj hu).1
    | cons d s => exact hs s (by rw [(List.cons.inj hu).1])
  | case3 d s _ hd ih =>
    have hd : d ≠ '\r' := fun h => hd h
    rw [List.cons_append, universalNewlines_cons hd, ih, List.cons_append]
  | case4 => rfl

theorem universalNewlines_digits (h : ∀ c ∈ s, c.isDigit) (t : Str) :
    universalNewlines (s ++ t) = s ++ universalNewlines t := by
  induction s with
  | nil => rfl
  | cons c s ih =>
    obtain ⟨hc, hs⟩ := List.forall_mem_cons.1 h
    have hr : c ≠ '\r' := by
      rintro rfl
      cases hc
    rw [List.cons_append, universalNewlines_cons hr, ih hs, List.cons_append]

theorem trim_split (s : Str) :
    ∃ a b, s = a ++ trim s ++ b ∧ (∀ c ∈ a, isWhite c) ∧ ∀ c ∈ b, isWhite c := by
  refine ⟨s.takeWhile isWhite, (s.dropWhile isWhite).rtakeWhile isWhite, ?_, ?_, ?_⟩
  · rw [trim, List.append_assoc, List.rdropWhile_append_rtakeWhile,
      List.takeWhile_append_dropWhile]
  · intro c hc
    exact List.mem_takeWhile_imp hc
  · intro c hc
    exact List.mem_rtakeWhile_imp hc

theorem isStripped_of_isDigit {c : Char} (h : c.isDigit) : isStripped c = false := by
  have hw : isWhite c = false := by
    cases hw : isWhite c with
    | false => rfl
    | true => exact absurd h (by simp [isDigit_of_isWhite hw])
  rw [Char.isDigit_iff_toNat] at h
  have h0 : '0'.toNat = 48 := rfl
  simp only [isStripped, hw, Bool.false_or, Bool.and_eq_false_iff, decide_eq_false_iff_not]
  omega

theorem strip_digits {a b : Str} (ha : ∀ c ∈ a, isStripped c) (hb : ∀ c ∈ b, isStripped c)
    (hs : ∀ c ∈ s, c.isDigit) : strip (a ++ s ++ b) = s := by
  have hleft : (a ++ s ++ b).dropWhile isStripped = (s ++ b).dropWhile isStripped := by
    rw [List.append_assoc, List.dropWhile_append_of_pos ha]
  cases s with
  | nil =>
    have hnil : b.dropWhile isStripped = [] := List.dropWhile_eq_nil_iff.2 hb
    rw [strip, hleft, List.nil_append, hnil, List.rdropWhile_nil]
  | cons c s =>
    have hneg : ∀ d ∈ c :: s, ¬isStripped d := by
      intro d hd
      simp [isStripped_of_isDigit (hs d hd)]
    have hright : (c :: s ++ b).rdropWhile isStripped = (c :: s).rdropWhile isStripped := by
      have hb' : ∀ d ∈ b.reverse, isStripped d := fun d hd => hb d (List.mem_reverse.1 hd)
      rw [List.rdropWhile, List.rdropWhile, List.reverse_append, List.dropWhile_append_of_pos hb']
    rw [strip, hleft, List.cons_append, List.dropWhile_cons_of_neg (hneg c List.mem_cons_self),
      ← List.cons_append, hright, List.rdropWhile_eq_self_iff]
    intro hne
    exact hneg _ (List.getLast_mem hne)

theorem currentId_stored {s : Desk} {id : Str} (h : StoredId s.files id) :
    currentId s = .ok id := by
  obtain ⟨hid, bytes, hb, text, ht, htrim⟩ := h
  have hsome : s.files.connectionId = some bytes := hb
  simp only [currentId, hsome, ht]
  obtain ⟨a, b, hs, ha, hb⟩ := trim_split text.toList
  rw [htrim] at hs
  obtain ⟨c, cs, rfl⟩ := List.exists_cons_of_length_pos (l := id) (by rw [hid.1]; decide)
  have hc : c ≠ '\n' := by
    rintro rfl
    cases hid.2 _ List.mem_cons_self
  rw [hs, List.append_assoc, List.cons_append, universalNewlines_append hc, ← List.cons_append,
    universalNewlines_digits hid.2, ← List.append_assoc,
    strip_digits (universalNewlines_white ha) (universalNewlines_white hb) hid.2]

/-- A daemon runs, the file holds the one ID, and `status.json` shows the other. -/
structure Shown (H : HostState) (id shown : Str) (s : Desk) : Prop where
  readable : s.files.Readable
  running : s.running = some H
  stored : StoredId s.files id
  status : ∃ st, s.status = some st ∧ st.idPretty = formatId (String.ofList shown)
  isId : IsId shown

section
variable {H : HostState} {s t : Desk} {e : DeskEvent} {es : List DeskEvent} {id id' own : Str}

theorem DeskStep.shown (h : DeskStep s e t) (hs : Shown H id id' s)
    (hH : H.id = String.ofList own) (hown : IsId own) (he : e.carriesOn) :
    Shown H (regenerated id [e]) (shownId own id id' [e]) t := by
  have hread := h.readable hs.readable
  cases h with
  | called c =>
    cases c with
    | load n =>
      refine ⟨hread, hs.running, ?_, hs.status, hs.isId⟩
      rw [IdCall.run, load_stored hs.stored]
      exact hs.stored
    | regen n =>
      exact ⟨hread, hs.running, storedId_written (isId_generateId n), hs.status, hs.isId⟩
  | started n hr =>
    rw [hs.running] at hr
    cases hr
  | unbound n hid H' hH' =>
    rw [load_stored hs.stored] at hid hread ⊢
    cases hid
    exact ⟨hread, hs.running, hs.stored, ⟨_, rfl, congrArg formatId hH'⟩, hs.stored.1⟩
  | reported hr clients =>
    cases hs.running.symm.trans hr
    exact ⟨hread, hs.running, hs.stored, ⟨_, rfl, congrArg formatId hH⟩, hown⟩
  | killed c ht =>
    cases c with
    | load n =>
      rw [writes_stored hs.stored] at ht
      rw [IdFiles.files_inj ht.nil]
      exact hs
    | regen n => cases he
  | torn | unwritten | stopped => cases he

theorem shownId_cons (own file shown : Str) (e : DeskEvent) (es : List DeskEvent) :
    shownId own file shown (e :: es) =
      shownId own (regenerated file [e]) (shownId own file shown [e]) es := by
  cases e with
  | called c r => cases c <;> rfl
  | _ => rfl

theorem run_shown (h : Run DeskStep s es t) (hs : Shown H id id' s)
    (hH : H.id = String.ofList own) (hown : IsId own) (hes : ∀ e ∈ es, e.carriesOn) :
    Shown H (regenerated id es) (shownId own id id' es) t := by
  induction h generalizing id id' with
  | nil => exact hs
  | cons hst _ ih =>
    obtain ⟨he, hes⟩ := List.forall_mem_cons.1 hes
    rw [shownId_cons]
    exact ih (hst.shown hs hH hown he) hes

theorem DeskStep.start (h : DeskStep s (.started n id) t) (hs : s.files.Readable) :
    ∃ H, Shown H id id t ∧ H.id = String.ofList id := by
  obtain ⟨id', hid, hst⟩ := h.result hs (r := .ok id) rfl
  cases hid
  have hread := h.readable hs
  generalize he : DeskEvent.started n id = e at h
  cases h with
  | started n hr hid H hH =>
    cases he
    exact ⟨H, ⟨hread, rfl, hst, ⟨_, rfl, congrArg formatId hH⟩, hst.1⟩, hH⟩
  | _ => cases he

theorem Shown.label (h : Shown H id id' s) :
    idLabel s = .ok (formatId (String.ofList id')).toList := by
  obtain ⟨st, hst, hpretty⟩ := h.status
  have hne : (formatId (String.ofList id')).toList ≠ [] := by
    simp [formatId, h.isId.1]
  have hshown : (s.status.map fun st => st.idPretty.toList).getD [] =
      (formatId (String.ofList id')).toList := by
    rw [hst, Option.map_some, Option.getD_some, hpretty]
  simp only [idLabel, hshown, if_neg hne]

end

/-- What the panel shows is the running daemon's ID, or the one that a start which found the port
taken has written since; what it copies is the last ID made since the daemon started, whatever calls
ran or were killed in between; a client that presents the copy is let in just where no other ID was
made. -/
theorem panel_copies_admitted (s t : Desk) (es es' : List DeskEvent) (n : Draw) (id : Str)
    (hs : s.files.Readable) (h : Run DeskStep s (es ++ .started n id :: es') t)
    (hes : ∀ e ∈ es', e.carriesOn) :
    ∃ H, t.running = some H ∧ H.id = String.ofList id ∧
      idLabel t = .ok (formatId (String.ofList (shownId id id id es'))).toList ∧
      currentId t = .ok (regenerated id es') ∧
      ∀ S payload hello, S.clientHello payload = some hello →
        hello.id = String.ofList (regenerated id es') →
        (onHello H S (Proto.clientHello, payload) = .authenticated hello.viewport ↔
          regenerated id es' = id) := by
  obtain ⟨u, hu, h⟩ := h.split
  cases h with
  | cons hst h =>
    have hread : u.files.Readable :=
      hu.invariant (I := fun u => u.files.Readable) (fun _ _ _ hu hst => hst.readable hu) hs
    obtain ⟨H, hshown, hH⟩ := hst.start hread
    have ht := run_shown h hshown hH hshown.isId hes
    refine ⟨H, ht.running, hH, ht.label, currentId_stored ht.stored, ?_⟩
    intro S payload hello hp hid
    rw [onHello_eq hp, hid, hH]
    by_cases heq : regenerated id es' = id
    · simp [heq]
    · have hne : String.ofList (regenerated id es') ≠ String.ofList id := by
        intro h
        exact heq (String.ofList_injective h)
      simp [heq, hne]

def onesHost : HostState :=
  { id := String.ofList (generateId ones), hostname := "desk", endpoints := [],
    fingerprint := "sha256:00" }

/-- The daemon runs on the first ID, the second one has been made since, and another start found
the port taken. -/
def twosMade : Desk :=
  { files := .written (generateId twos), running := some onesHost,
    status := some ({ onesHost with id := String.ofList (generateId twos) }.snapshot 0) }

theorem panel_copies_admitted_regen :
    let es := [DeskEvent.called (.regen twos) (.ok (generateId twos)),
      .unbound ones (generateId twos)]
    ∃ H, twosMade.running = some H ∧ H.id = String.ofList (generateId ones) ∧
      idLabel twosMade = .ok (formatId (String.ofList (generateId twos))).toList ∧
      currentId twosMade = .ok (regenerated (generateId ones) es) ∧
      ∀ S payload hello, S.clientHello payload = some hello →
        hello.id = String.ofList (regenerated (generateId ones) es) →
        (onHello H S (Proto.clientHello, payload) = .authenticated hello.viewport ↔
          regenerated (generateId ones) es = generateId ones) := by
  intro es
  let s : Desk := { twosMade with status := some (onesHost.snapshot 0) }
  have hunbound : DeskStep s (.unbound ones (generateId twos)) twosMade :=
    .failsToBind (storedId_written (isId_generateId twos)) ones rfl
  have hshown : shownId (generateId ones) (generateId ones) (generateId ones) es =
      generateId twos := rfl
  rw [← hshown]
  exact panel_copies_admitted { files := {} } twosMade [] es ones (generateId ones)
    readable_empty
    (.cons (.started ones rfl rfl onesHost rfl) (.cons (.called (.regen twos)) (.single hunbound)))
    (List.forall_mem_cons.2 ⟨rfl, List.forall_mem_singleton.2 rfl⟩)

end DdrdeskHost
