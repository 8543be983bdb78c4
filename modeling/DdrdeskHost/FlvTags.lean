import DdrdeskHost.FlvMux
import DdrdeskHost.Lib.Blocks
import DdrdeskHost.Lib.LastWrite

namespace DdrdeskHost
open Bytes
set_option autoImplicit true

/-- The data size that a tag's first bytes announce. -/
def tagSize (hdr : List UInt8) : Nat := ofBE [0, hdr.getD 1 0, hdr.getD 2 0, hdr.getD 3 0]

/-- A tag as it stands in the file: its eleven bytes, its data, the size behind them. -/
structure RawTag where
  hdr : List UInt8
  data : List UInt8
  prev : List UInt8
  hdr_length : hdr.length = 11
  data_length : data.length = tagSize hdr
  prev_length : prev.length = 4
  deriving DecidableEq

/-- What a tag is to the demuxer. -/
inductive Content
  | ignored
  | header (record : List UInt8)
  | picture (key : Bool) (body : List UInt8)
  deriving DecidableEq

namespace RawTag

def tagType (t : RawTag) : UInt8 := t.hdr.getD 0 0

def timestamp (t : RawTag) : UInt32 :=
  UInt32.ofNat (ofBE [t.hdr.getD 7 0, t.hdr.getD 4 0, t.hdr.getD 5 0, t.hdr.getD 6 0])

def bytes (t : RawTag) : List UInt8 := t.hdr ++ (t.data ++ t.prev)

def ofParts (hdr data prev : List UInt8) : Option RawTag :=
  if h : hdr.length = 11 ∧ data.length = tagSize hdr ∧ prev.length = 4 then
    some ⟨hdr, data, prev, h.1, h.2.1, h.2.2⟩
  else none

/-- The first tag of a stream, if it is there whole. -/
def read (r : List UInt8) : Option (RawTag × List UInt8) :=
  (readExact 11 r).bind fun p =>
    (readExact (tagSize p.1) p.2).bind fun q =>
      (readExact 4 q.2).bind fun o => (ofParts p.1 q.1 o.1).map fun t => (t, o.2)

/-- AVC video data: a sequence header, or the NAL units of a picture. -/
def content (t : RawTag) : Content :=
  if t.tagType ≠ 9 ∨ t.data.length < 5 ∨ t.data.headD 0 &&& 0x0f ≠ 7 then .ignored
  else if t.data.getD 1 0 = 0 then .header (t.data.drop 5)
  else if t.data.getD 1 0 = 1 then .picture (t.data.headD 0 >>> 4 == 1) (t.data.drop 5)
  else .ignored

/-- The record of a sequence header. -/
def record (t : RawTag) : Option (List UInt8) :=
  match t.content with
  | .header record => some record
  | _ => none

theorem ofParts_eq_some (t : RawTag) : ofParts t.hdr t.data t.prev = some t :=
  dif_pos ⟨t.hdr_length, t.data_length, t.prev_length⟩

theorem eq_of_ofParts {hdr data prev : List UInt8} (h : ofParts hdr data prev = some t) :
    t.hdr = hdr ∧ t.data = data ∧ t.prev = prev := by
  obtain ⟨hp, he⟩ := Option.dite_none_right_eq_some.1 h
  cases he
  exact ⟨rfl, rfl, rfl⟩

theorem read_bytes (t : RawTag) (s : List UInt8) : read (t.bytes ++ s) = some (t, s) := by
  have hdata : readExact (tagSize t.hdr) (t.data ++ (t.prev ++ s)) = some (t.data, t.prev ++ s) :=
    readExact_append t.data_length
  rw [read, bytes, List.append_assoc, List.append_assoc, readExact_append t.hdr_length,
    Option.bind_some, hdata, Option.bind_some, readExact_append t.prev_length, Option.bind_some,
    ofParts_eq_some]
  rfl

theorem eq_bytes_of_read (h : read r = some (t, s)) : r = t.bytes ++ s := by
  obtain ⟨⟨hdr, r₁⟩, h₁, h⟩ := Option.bind_eq_some_iff.1 h
  obtain ⟨⟨data, r₂⟩, h₂, h⟩ := Option.bind_eq_some_iff.1 h
  obtain ⟨⟨prev, r₃⟩, h₃, h⟩ := Option.bind_eq_some_iff.1 h
  obtain ⟨u, hu, he⟩ := Option.map_eq_some_iff.1 h
  obtain ⟨rfl, rfl⟩ := Prod.mk.inj he
  obtain ⟨hhdr, hdata, hprev⟩ := eq_of_ofParts hu
  obtain ⟨rfl, -⟩ := readExact_eq_some h₁
  obtain ⟨hr₁, -⟩ := readExact_eq_some h₂
  obtain ⟨hr₂, -⟩ := readExact_eq_some h₃
  simp only at hr₁ hr₂
  rw [hr₁, hr₂, bytes, hhdr, hdata, hprev]
  simp only [List.append_assoc]

end RawTag

/-- The tags of a file, behind its first thirteen bytes. -/
def tagCode : PrefixCode RawTag UInt8 where
  Valid _ := True
  encode := RawTag.bytes
  decode := RawTag.read
  decode_encode {t s} _ := t.read_bytes s
  encode_decode h := ⟨trivial, RawTag.eq_bytes_of_read h⟩
  encode_ne_nil {t} h := by
    have hlen := t.hdr_length
    rw [(List.append_eq_nil_iff.1 h).1] at hlen
    cases hlen

/-- The tags that are there whole. -/
def tagsOf (s : List UInt8) : List RawTag := (tagCode.decodeAll s).1

theorem readTag_whole (d : FlvH264) (t : RawTag) (s : List UInt8) :
    readTag d (t.bytes ++ s) =
      ((tagBody d t.tagType t.timestamp t.data).1, s,
        (tagBody d t.tagType t.timestamp t.data).2.map some) := by
  have hdata : readExact (ofBE [0, t.hdr.getD 1 0, t.hdr.getD 2 0, t.hdr.getD 3 0])
      (t.data ++ (t.prev ++ s)) = some (t.data, t.prev ++ s) := readExact_append t.data_length
  rw [RawTag.timestamp, readTag, RawTag.bytes, List.append_assoc, List.append_assoc,
    readExact_append t.hdr_length]
  -- of the sizes, only that of the data matters
  obtain ⟨size, hsize⟩ : ∃ size, size = ofBE := ⟨_, rfl⟩
  rw [← hsize] at hdata ⊢
  simp only [hdata, readExact_append t.prev_length]
  rfl

theorem readTag_cut (h : RawTag.read r = none) (d : FlvH264) :
    readTag d r = (d, [], if r.length < 11 then .ok none else .error .unexpectedEof) := by
  rw [readTag]
  cases h₁ : readExact 11 r with
  | none => rw [if_pos (readExact_eq_none.1 h₁)]
  | some p =>
    obtain ⟨hdr, r₁⟩ := p
    obtain ⟨rfl, hl₁⟩ := readExact_eq_some h₁
    have hge : ¬(hdr ++ r₁).length < 11 := by
      rw [List.length_append]
      omega
    obtain ⟨size, hsize⟩ : ∃ size, size = ofBE := ⟨_, rfl⟩
    rw [if_neg hge, ← hsize]
    simp only
    split
    · rfl
    · next data r₂ h₂ =>
      split
      · rfl
      · next prev r₃ h₃ =>
        -- all three parts are there, and so is the tag
        obtain ⟨rfl, hl₂⟩ := readExact_eq_some h₂
        obtain ⟨rfl, hl₃⟩ := readExact_eq_some h₃
        rw [hsize] at hl₂
        have hread := RawTag.read_bytes ⟨hdr, data, prev, hl₁, hl₂, hl₃⟩ r₃
        rw [RawTag.bytes, List.append_assoc, List.append_assoc] at hread
        cases hread.symm.trans h

/-- The parameter sets and the length size that a stream has set. -/
structure Sets where
  sps : List (List UInt8) := []
  pps : List (List UInt8) := []
  lengthSize : Nat := 4
  lengthSize_pos : 0 < lengthSize := by decide
  lengthSize_le : lengthSize ≤ 4 := by decide

/-- The sets of `FlvH264::new`. -/
def Sets.new : Sets := {}

/-- The sets in a decoder configuration record; without a byte behind the SPS there is no PPS. -/
def recordSets (rec : List UInt8) : Option (List (List UInt8) × List (List UInt8)) :=
  ((blockCode 2 Nat.two_pos).decodeN (rec.getD 5 0 &&& 0x1f).toNat (rec.drop 6)).bind fun p =>
    match p.2 with
    | [] => some (p.1, [])
    | n :: rest =>
      ((blockCode 2 Nat.two_pos).decodeN n.toNat rest).map fun q => (p.1, q.1)

/-- The NAL units of a picture, unless the last one is cut. -/
def nalsOf (k : Nat) (hk : 0 < k) (body : List UInt8) : Option (List (List UInt8)) :=
  if ((blockCode k hk).decodeAll body).2.length < k then some ((blockCode k hk).decodeAll body).1
  else none

namespace Sets

theorem two_bits (b : UInt8) : (b &&& 3).toNat + 1 ≤ 4 := by
  rw [UInt8.toNat_and]
  exact Nat.succ_le_succ Nat.and_le_right

def ofRecord (rec : List UInt8) : Option Sets :=
  if rec.length < 7 then none
  else
    (recordSets rec).map fun p =>
      { sps := p.1, pps := p.2, lengthSize := (rec.getD 4 0 &&& 3).toNat + 1,
        lengthSize_pos := Nat.succ_pos _, lengthSize_le := two_bits _ }

/-- The demuxer's state for these sets. -/
def demuxer (s : Sets) : FlvH264 :=
  { spsPps := annexB (s.sps ++ s.pps), naluSizeLen := s.lengthSize }

/-- The NAL units of the access unit that a picture becomes. -/
def nals (s : Sets) (key : Bool) (nals : List (List UInt8)) : List (List UInt8) :=
  (if key then s.sps ++ s.pps else []) ++ nonEmpty nals

/-- The access unit that a picture becomes, if there is anything in it. -/
def unit (s : Sets) (key : Bool) (ts : UInt32) (nals : List (List UInt8)) : Option NalUnit :=
  if s.nals key nals = [] then none
  else some { keyframe := key, ptsUs := ts.toUInt64 * 1000, data := annexB (s.nals key nals) }

/-- What a tag does to the sets, and what it emits; `none` if it does not parse. -/
def step (s : Sets) (t : RawTag) : Option (Sets × Option NalUnit) :=
  match t.content with
  | .ignored => some (s, none)
  | .header rec => (ofRecord rec).map fun s' => (s', none)
  | .picture key body =>
    (nalsOf s.lengthSize s.lengthSize_pos body).map fun nals => (s, s.unit key t.timestamp nals)

/-- The sets after some tags. -/
def after (s : Sets) (ts : List RawTag) : Option Sets :=
  ts.foldlM (fun s t => (s.step t).map Prod.fst) s

end Sets

theorem lengthPrefixed_eq (hk : 0 < k) (xs : List (List UInt8)) :
    lengthPrefixed k xs = (blockCode k hk).encodeAll xs := rfl

theorem annexbLoop_truncated (hk : 0 < k) (h : (blockCode k hk).decode s = none)
    (hlen : ¬s.length < k) (out : List UInt8) :
    ∃ want have_, annexbLoop k hk s out = .error (.truncatedNalu want have_) := by
  obtain hlt | ⟨len, body, rfl, hk', hbody⟩ := blockCode_decode_eq_none h
  · exact absurd hlt hlen
  · have hne : ofBE len ≠ 0 := by omega
    refine ⟨ofBE len, body.length, ?_⟩
    rw [annexbLoop, if_neg hlen]
    simp only [List.take_left' hk', List.drop_left' hk', naluLen_eq_ofBE, hne, hbody, ↓reduceIte]

theorem annexbLoop_nalsOf (hk : 0 < k) (body out : List UInt8) :
    (∀ nals, nalsOf k hk body = some nals →
      annexbLoop k hk body out = .ok (out ++ annexB (nonEmpty nals))) ∧
    (nalsOf k hk body = none → ∃ e, annexbLoop k hk body out = .error e) := by
  obtain ⟨hsplit, hvalid, hnone⟩ := (blockCode k hk).decodeAll_spec body
  have hloop : annexbLoop k hk body out = annexbLoop k hk ((blockCode k hk).decodeAll body).2
      (out ++ annexB (nonEmpty ((blockCode k hk).decodeAll body).1)) := by
    conv_lhs => rw [hsplit]
    exact annexbLoop_append hk hvalid _ _
  rw [hloop, nalsOf]
  by_cases hlen : ((blockCode k hk).decodeAll body).2.length < k
  · rw [if_pos hlen, annexbLoop_short hk hlen]
    constructor
    · intro nals hn
      cases hn
      rfl
    · simp
  · obtain ⟨want, have_, he⟩ := annexbLoop_truncated hk hnone hlen _
    rw [if_neg hlen, he]
    exact ⟨by simp, fun _ => ⟨_, rfl⟩⟩

theorem parseSets_truncated {t b : FlvError}
    (h : (blockCode 2 Nat.two_pos).decodeN count s = none) (p out : List UInt8) :
    parseSets t b (p ++ s) count p.length out = .error t ∨
      parseSets t b (p ++ s) count p.length out = .error b := by
  induction count generalizing p s out with
  | zero => cases h
  | succ count ih =>
    rw [parseSets]
    cases h₂ : readExact 2 s with
    | none =>
      have hlt : (p ++ s).length < p.length + 2 := by
        have hs := readExact_eq_none.1 h₂
        rw [List.length_append]
        omega
      rw [if_pos hlt]
      exact .inl rfl
    | some q =>
      obtain ⟨len, s'⟩ := q
      obtain ⟨rfl, hlen⟩ := readExact_eq_some h₂
      have hdec := blockCode_decode Nat.two_pos hlen s'
      obtain ⟨a, c, rfl⟩ := List.length_eq_two.1 hlen
      have hge : ¬(p ++ ([a, c] ++ s')).length < p.length + 2 := by
        simp only [List.length_append, List.length_cons, List.length_nil]
        omega
      have ha : byteAt (p ++ ([a, c] ++ s')) p.length = .ok a := byteAt_append p a (c :: s')
      have hc : byteAt (p ++ ([a, c] ++ s')) (p.length + 1) = .ok c := by
        have hc := byteAt_append (p ++ [a]) c s'
        rwa [List.length_append, List.length_singleton, List.append_assoc] at hc
      rw [if_neg hge, ha, hc]
      simp only [bind, Except.bind]
      cases hx : readExact (ofBE [a, c]) s' with
      | none =>
        have hlt : (p ++ ([a, c] ++ s')).length < p.length + 2 + ofBE [a, c] := by
          have hs := readExact_eq_none.1 hx
          simp only [List.length_append, List.length_cons, List.length_nil]
          omega
        rw [if_pos hlt]
        exact .inr rfl
      | some q =>
        obtain ⟨x, s''⟩ := q
        obtain ⟨rfl, hxl⟩ := readExact_eq_some hx
        have hge : ¬(p ++ ([a, c] ++ (x ++ s''))).length < p.length + 2 + ofBE [a, c] := by
          simp only [List.length_append, List.length_cons, List.length_nil]
          omega
        have hlp : (p ++ [a, c]).length = p.length + 2 := by
          simp only [List.length_append, List.length_cons, List.length_nil]
        have hbody := slice_append (p ++ [a, c]) x s''
        rw [hlp, hxl, List.append_assoc] at hbody
        have hrest : (blockCode 2 Nat.two_pos).decodeN count s'' = none := by
          rw [PrefixCode.decodeN, hdec, hx] at h
          exact Option.map_eq_none_iff.1 h
        have hnext := ih hrest (p ++ [a, c] ++ x) (out ++ (startCode ++ x))
        rw [List.length_append, hlp, hxl, List.append_assoc, List.append_assoc] at hnext
        rw [if_neg hge, hbody]
        exact hnext

theorem parseSets_decodeN {t b : FlvError}
    (h : (blockCode 2 Nat.two_pos).decodeN count s = some (xs, rest)) (p out : List UInt8) :
    parseSets t b (p ++ s) count p.length out =
      .ok (p.length + (lengthPrefixed 2 xs).length, out ++ annexB xs) := by
  obtain ⟨rfl, hv, rfl⟩ := (blockCode 2 Nat.two_pos).decodeN_eq_some h
  exact parseSets_lengthPrefixed hv p out rest

theorem byteAt_eq {s : List UInt8} (h : i < s.length) : byteAt s i = .ok (s.getD i 0) := by
  simp only [byteAt, List.getElem?_eq_getElem h, List.getD_eq_getElem?_getD, Option.getD_some]

theorem parameterSets_recordSets (h : 7 ≤ rec.length) :
    (∀ sps pps, recordSets rec = some (sps, pps) →
      parameterSets rec = .ok (annexB (sps ++ pps))) ∧
    (recordSets rec = none → ∃ e, parameterSets rec = .error e ∧ e ≠ .indexOutOfBounds) := by
  have hlen : (rec.take 6).length = 6 := List.length_take_of_le (by omega)
  have hrec : rec = rec.take 6 ++ rec.drop 6 := (List.take_append_drop 6 rec).symm
  have h5 : byteAt rec 5 = .ok (rec.getD 5 0) := byteAt_eq (by omega)
  rw [parameterSets, h5, recordSets]
  simp only [bind, Except.bind, pure, Except.pure]
  cases hs : (blockCode 2 Nat.two_pos).decodeN (rec.getD 5 0 &&& 0x1f).toNat (rec.drop 6) with
  | none =>
    have hsps := parseSets_truncated (t := .truncatedSps) (b := .truncatedSpsBody) hs
      (rec.take 6) []
    rw [← hrec, hlen] at hsps
    constructor
    · simp
    · intro _
      rcases hsps with he | he
      · exact ⟨_, by rw [he], by simp⟩
      · exact ⟨_, by rw [he], by simp⟩
  | some q =>
    obtain ⟨sps, rest⟩ := q
    have hsps := parseSets_decodeN (t := .truncatedSps) (b := .truncatedSpsBody) hs
      (rec.take 6) []
    rw [← hrec, hlen] at hsps
    obtain ⟨-, -, hdrop⟩ := (blockCode 2 Nat.two_pos).decodeN_eq_some hs
    rw [← lengthPrefixed_eq] at hdrop
    rw [hdrop] at hrec
    simp only [hsps, Option.bind_some]
    cases rest with
    | nil =>
      have hend : rec.length ≤ 6 + (lengthPrefixed 2 sps).length := by
        rw [hrec, List.append_nil, List.length_append, hlen]
      rw [if_pos hend]
      constructor
      · intro sps' pps he
        cases he
        rw [List.append_nil, List.nil_append]
      · simp
    | cons n rest =>
      have hlp : (rec.take 6 ++ lengthPrefixed 2 sps).length =
          6 + (lengthPrefixed 2 sps).length := by rw [List.length_append, hlen]
      have hmore : ¬rec.length ≤ 6 + (lengthPrefixed 2 sps).length := by
        rw [hrec, ← List.append_assoc, List.length_append, hlp, List.length_cons]
        omega
      have hn : byteAt rec (6 + (lengthPrefixed 2 sps).length) = .ok n := by
        have hn := byteAt_append (rec.take 6 ++ lengthPrefixed 2 sps) n rest
        rwa [hlp, List.append_assoc, ← hrec] at hn
      have hp : (rec.take 6 ++ lengthPrefixed 2 sps ++ [n]).length =
          6 + (lengthPrefixed 2 sps).length + 1 := by
        rw [List.length_append, hlp, List.length_singleton]
      have hrec' : rec.take 6 ++ lengthPrefixed 2 sps ++ [n] ++ rest = rec := by
        rw [List.append_assoc, List.append_assoc, List.singleton_append, ← hrec]
      rw [if_neg hmore, hn]
      simp only
      cases hps : (blockCode 2 Nat.two_pos).decodeN n.toNat rest with
      | none =>
        have hpps := parseSets_truncated (t := .truncatedPps) (b := .truncatedPpsBody) hps
          (rec.take 6 ++ lengthPrefixed 2 sps ++ [n]) ([] ++ annexB sps)
        rw [hrec', hp] at hpps
        constructor
        · simp
        · intro _
          rcases hpps with he | he
          · exact ⟨_, by rw [he], by simp⟩
          · exact ⟨_, by rw [he], by simp⟩
      | some q =>
        obtain ⟨pps, rest'⟩ := q
        have hpps := parseSets_decodeN (t := .truncatedPps) (b := .truncatedPpsBody) hps
          (rec.take 6 ++ lengthPrefixed 2 sps ++ [n]) ([] ++ annexB sps)
        rw [hrec', hp] at hpps
        constructor
        · intro sps' pps' he
          cases he
          rw [hpps, List.nil_append, annexB_append]
        · simp

theorem parseAvcc_recordSets (h : 7 ≤ rec.length) (d : FlvH264) :
    (∀ sps pps, recordSets rec = some (sps, pps) →
      parseAvcc d rec = ({ spsPps := annexB (sps ++ pps),
                           naluSizeLen := (rec.getD 4 0 &&& 3).toNat + 1 }, .ok ())) ∧
    (recordSets rec = none → ∃ e, e ≠ .indexOutOfBounds ∧
      parseAvcc d rec = ({ d with naluSizeLen := (rec.getD 4 0 &&& 3).toNat + 1 }, .error e)) := by
  have h4 : byteAt rec 4 = .ok (rec.getD 4 0) := byteAt_eq (by omega)
  obtain ⟨hok, herr⟩ := parameterSets_recordSets h
  rw [parseAvcc, if_neg (Nat.not_lt.2 h), h4]
  refine ⟨?_, ?_⟩
  · intro sps pps hr
    simp only [hok sps pps hr]
  · intro hr
    obtain ⟨e, he, hne⟩ := herr hr
    exact ⟨e, hne, by simp only [he]⟩

namespace Sets

theorem parseAvcc_ofRecord (d : FlvH264) (rec : List UInt8) :
    (∀ s, ofRecord rec = some s → parseAvcc d rec = (s.demuxer, .ok ())) ∧
    (ofRecord rec = none → ∃ d' e, parseAvcc d rec = (d', .error e)) := by
  rw [ofRecord]
  by_cases hlen : rec.length < 7
  · rw [parseAvcc, if_pos hlen, if_pos hlen]
    exact ⟨by simp, fun _ => ⟨_, _, rfl⟩⟩
  · obtain ⟨hok, herr⟩ := parseAvcc_recordSets (Nat.le_of_not_lt hlen) d
    rw [if_neg hlen]
    cases hr : recordSets rec with
    | none =>
      obtain ⟨e, -, he⟩ := herr hr
      exact ⟨by simp, fun _ => ⟨_, e, he⟩⟩
    | some p =>
      refine ⟨?_, by simp⟩
      intro s hs
      cases hs
      exact hok p.1 p.2 hr

theorem unit_eq (s : Sets) (key : Bool) (ts : UInt32) (nals : List (List UInt8)) :
    s.unit key ts nals =
      if (annexB (s.nals key nals)).isEmpty then none
      else some { keyframe := key, ptsUs := ts.toUInt64 * 1000,
                  data := annexB (s.nals key nals) } := by
  rw [unit]
  simp only [List.isEmpty_iff, annexB_eq_nil]

theorem tagBody_content (d : FlvH264) (t : RawTag) :
    tagBody d t.tagType t.timestamp t.data =
      match t.content with
      | .ignored => (d, .ok none)
      | .header rec => ((parseAvcc d rec).1, (parseAvcc d rec).2.map fun _ => none)
      | .picture key body =>
        match avccToAnnexb body d.naluSizeLen
            (if key && !d.spsPps.isEmpty then d.spsPps else []) with
        | .error e => (d, .error e)
        | .ok annexb =>
          if annexb.isEmpty then (d, .ok none)
          else (d, .ok (some { keyframe := key, ptsUs := t.timestamp.toUInt64 * 1000,
                               data := annexb })) := by
  rw [RawTag.content, tagBody]
  by_cases htype : t.tagType = 9
  · by_cases hlen : t.data.length < 5
    · simp only [htype, hlen, ne_eq, not_true_eq_false, true_or, or_true, ↓reduceIte]
    · by_cases hcodec : t.data.headD 0 &&& 0x0f = 7
      · simp only [htype, hlen, hcodec, ne_eq, not_true_eq_false, or_self, ↓reduceIte]
        split
        · rfl
        · split
          · rfl
          · rfl
      · simp only [htype, hlen, hcodec, ne_eq, not_true_eq_false, not_false_eq_true, or_true,
          ↓reduceIte]
  · simp only [htype, ne_eq, not_false_eq_true, true_or, ↓reduceIte]

theorem tagBody_step (s : Sets) (t : RawTag) :
    (∀ s' u, s.step t = some (s', u) →
      tagBody s.demuxer t.tagType t.timestamp t.data = (s'.demuxer, .ok u)) ∧
    (s.step t = none →
      ∃ d e, tagBody s.demuxer t.tagType t.timestamp t.data = (d, .error e)) := by
  rw [tagBody_content, step]
  cases t.content with
  | ignored =>
    constructor
    · intro s' u h
      cases h
      rfl
    · simp
  | header rec =>
    obtain ⟨hok, herr⟩ := parseAvcc_ofRecord s.demuxer rec
    cases hr : ofRecord rec with
    | none =>
      obtain ⟨d, e, he⟩ := herr hr
      simp only [he, hr, Option.map_none]
      exact ⟨by simp, fun _ => ⟨d, e, rfl⟩⟩
    | some s' =>
      simp only [hok s' hr, hr, Option.map_some]
      constructor
      · intro s'' u h
        cases h
        rfl
      · simp
  | picture key body =>
    have hsets : (if key && !s.demuxer.spsPps.isEmpty then s.demuxer.spsPps else []) =
        annexB (if key then s.sps ++ s.pps else []) := by
      cases key with
      | false => rfl
      | true => cases hp : annexB (s.sps ++ s.pps) <;> simp [demuxer, hp]
    have hbad : ¬(s.demuxer.naluSizeLen = 0 ∨ 4 < s.demuxer.naluSizeLen) := by
      have hpos := s.lengthSize_pos
      have hle := s.lengthSize_le
      simp only [demuxer]
      omega
    obtain ⟨hok, herr⟩ := annexbLoop_nalsOf s.lengthSize_pos body
      (annexB (if key then s.sps ++ s.pps else []))
    simp only [hsets, avccToAnnexb, hbad, ↓reduceDIte]
    simp only [demuxer] at hok herr ⊢
    cases hn : nalsOf s.lengthSize s.lengthSize_pos body with
    | none =>
      obtain ⟨e, he⟩ := herr hn
      simp only [he]
      exact ⟨by simp, fun _ => ⟨_, e, rfl⟩⟩
    | some ns =>
      simp only [hok ns hn, ← annexB_append]
      constructor
      · intro s' u h
        cases h
        rw [unit_eq, nals]
        cases (annexB ((if key then s.sps ++ s.pps else []) ++ nonEmpty ns)).isEmpty with
        | true => rfl
        | false => rfl
      · simp

end Sets

end DdrdeskHost
