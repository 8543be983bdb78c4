import Mathlib.Data.Nat.Bitwise
import DdrdeskHost.Lib.Bytes

namespace DdrdeskHost
open Bytes
set_option autoImplicit true

structure NalUnit where
  keyframe : Bool
  ptsUs : UInt64
  data : List UInt8
  deriving DecidableEq

/-- The demuxer's state; the defaults are those of `FlvH264::new`. -/
structure FlvH264 where
  spsPps : List UInt8 := []
  naluSizeLen : Nat := 4
  deriving DecidableEq

/-- The ways demuxing fails; `indexOutOfBounds` stands for a panic. -/
inductive FlvError
  | unexpectedEof
  | notFlv
  | shortRecord
  | truncatedSps
  | truncatedSpsBody
  | truncatedPps
  | truncatedPpsBody
  | badNaluSizeLength (len : Nat)
  | truncatedNalu (want have_ : Nat)
  | indexOutOfBounds
  deriving DecidableEq

def startCode : List UInt8 := [0, 0, 0, 1]

def byteAt (s : List UInt8) (i : Nat) : Except FlvError UInt8 :=
  match s[i]? with
  | some b => .ok b
  | none => .error .indexOutOfBounds

/-- The slice `s[i..i + n]`. -/
def slice (s : List UInt8) (i n : Nat) : Except FlvError (List UInt8) :=
  if i + n ≤ s.length then .ok ((s.drop i).take n) else .error .indexOutOfBounds

/-- One of the two loops of `parse_avcc`, which differ in their error texts only. -/
def parseSets (truncated truncatedBody : FlvError) (rec : List UInt8) :
    Nat → Nat → List UInt8 → Except FlvError (Nat × List UInt8)
  | 0, i, out => .ok (i, out)
  | count + 1, i, out => do
    if rec.length < i + 2 then throw truncated
    let n := ofBE [← byteAt rec i, ← byteAt rec (i + 1)]
    if rec.length < i + 2 + n then throw truncatedBody
    let body ← slice rec (i + 2) n
    parseSets truncated truncatedBody rec count (i + 2 + n) (out ++ (startCode ++ body))

/-- The part of `parse_avcc` that builds the new parameter sets. -/
def parameterSets (rec : List UInt8) : Except FlvError (List UInt8) := do
  let numSps := ((← byteAt rec 5) &&& 0x1f).toNat
  let (i, out) ← parseSets .truncatedSps .truncatedSpsBody rec numSps 6 []
  if rec.length ≤ i then return out
  let numPps := (← byteAt rec i).toNat
  let (_, out) ← parseSets .truncatedPps .truncatedPpsBody rec numPps (i + 1) out
  return out

def parseAvcc (d : FlvH264) (rec : List UInt8) : FlvH264 × Except FlvError Unit :=
  if rec.length < 7 then (d, .error .shortRecord)
  else
    match byteAt rec 4 with
    | .error e => (d, .error e)
    | .ok b =>
      -- the length size is stored before the parameter sets are known to parse
      let d := { d with naluSizeLen := (b &&& 3).toNat + 1 }
      match parameterSets rec with
      | .error e => (d, .error e)
      | .ok out => ({ d with spsPps := out }, .ok ())

/-- The big-endian length in front of a NAL unit, as the loop over its bytes builds it. -/
def naluLen (s : List UInt8) : Nat :=
  s.foldl (fun len b => len <<< 8 ||| b.toNat) 0

def annexbLoop (k : Nat) (hk : 0 < k) (src out : List UInt8) : Except FlvError (List UInt8) :=
  if src.length < k then .ok out
  else
    let len := naluLen (src.take k)
    let body := src.drop k
    if len = 0 then annexbLoop k hk body out
    else if body.length < len then .error (.truncatedNalu len body.length)
    else annexbLoop k hk (body.drop len) (out ++ (startCode ++ body.take len))
termination_by src.length
decreasing_by all_goals simp only [List.length_drop]; omega

def avccToAnnexb (src : List UInt8) (naluSizeLen : Nat) (out : List UInt8) :
    Except FlvError (List UInt8) :=
  if h : naluSizeLen = 0 ∨ 4 < naluSizeLen then .error (.badNaluSizeLength naluSizeLen)
  else annexbLoop naluSizeLen (by omega) src out

/-- What `read_tag` does with a tag that has been read whole. -/
def tagBody (d : FlvH264) (tagType : UInt8) (ts : UInt32) (data : List UInt8) :
    FlvH264 × Except FlvError (Option NalUnit) :=
  if tagType ≠ 9 then (d, .ok none)
  else if data.length < 5 then (d, .ok none)
  else
    let codec := data.headD 0 &&& 0x0f
    let frameType := data.headD 0 >>> 4
    if codec ≠ 7 then (d, .ok none)
    else
      let avcPacketType := data.getD 1 0
      let ptsUs := ts.toUInt64 * 1000
      if avcPacketType = 0 then
        let (d, res) := parseAvcc d (data.drop 5)
        (d, res.map fun _ => none)
      else if avcPacketType = 1 then
        let isKey := frameType == 1
        let annexb := if isKey && !d.spsPps.isEmpty then d.spsPps else []
        match avccToAnnexb (data.drop 5) d.naluSizeLen annexb with
        | .error e => (d, .error e)
        | .ok annexb =>
          if annexb.isEmpty then (d, .ok none)
          else (d, .ok (some { keyframe := isKey, ptsUs := ptsUs, data := annexb }))
      else (d, .ok none)

/-- `Ok(None)` at the end of the stream, `Ok(Some(None))` for a tag that is skipped. -/
def readTag (d : FlvH264) (r : List UInt8) :
    FlvH264 × List UInt8 × Except FlvError (Option (Option NalUnit)) :=
  match readExact 11 r with
  | none => (d, [], .ok none)
  | some (hdr, r) =>
    let byte (i : Nat) : UInt8 := hdr.getD i 0
    let dataSize := ofBE [0, byte 1, byte 2, byte 3]
    let ts := UInt32.ofNat (ofBE [byte 7, byte 4, byte 5, byte 6])
    match readExact dataSize r with
    | none => (d, [], .error .unexpectedEof)
    | some (data, r) =>
      match readExact 4 r with
      | none => (d, [], .error .unexpectedEof)
      | some (_, r) =>
        let (d, res) := tagBody d (byte 0) ts data
        (d, r, res.map some)

theorem length_lt_of_readTag (h : readTag d r = (d', r', .ok (some u))) :
    r'.length < r.length := by
  unfold readTag at h
  -- the size that the tag announces does not matter
  obtain ⟨size, hsize⟩ : ∃ size, size = ofBE := ⟨_, rfl⟩
  rw [← hsize] at h
  split at h
  · simp only [Prod.mk.injEq, Except.ok.injEq, reduceCtorEq, and_false] at h
  · next hdr r₁ h₁ =>
    simp only at h
    split at h
    · simp only [Prod.mk.injEq, reduceCtorEq, and_false] at h
    · next data r₂ h₂ =>
      split at h
      · simp only [Prod.mk.injEq, reduceCtorEq, and_false] at h
      · next prev r₃ h₃ =>
        obtain ⟨rfl, hl₁⟩ := readExact_eq_some h₁
        obtain ⟨rfl, hl₂⟩ := readExact_eq_some h₂
        obtain ⟨rfl, hl₃⟩ := readExact_eq_some h₃
        simp only [Prod.mk.injEq] at h
        obtain ⟨-, rfl, -⟩ := h
        simp only [List.length_append]
        omega

def nextAu (d : FlvH264) (r : List UInt8) :
    FlvH264 × List UInt8 × Except FlvError (Option NalUnit) :=
  match _h : readTag d r with
  | (d, r, .error e) => (d, r, .error e)
  | (d, r, .ok none) => (d, r, .ok none)
  | (d, r, .ok (some (some au))) => (d, r, .ok (some au))
  | (d, r', .ok (some none)) => nextAu d r'
termination_by r.length
decreasing_by exact length_lt_of_readTag _h

theorem nextAu_skip (h : readTag d r = (d', r', .ok (some none))) :
    nextAu d r = nextAu d' r' := by
  rw [nextAu]
  split <;> rename_i hr <;> rw [h] at hr <;> cases hr
  rfl

theorem nextAu_emit (h : readTag d r = (d', r', .ok (some (some au)))) :
    nextAu d r = (d', r', .ok (some au)) := by
  rw [nextAu]
  split <;> rename_i hr <;> rw [h] at hr <;> cases hr
  rfl

theorem length_lt_of_nextAu (h : nextAu d r = (d', r', .ok (some au))) :
    r'.length < r.length := by
  fun_induction nextAu d r with
  | case1 => cases h
  | case2 => cases h
  | case3 d r d₁ r₁ au hr =>
    cases h
    exact length_lt_of_readTag hr
  | case4 d r d₁ r₁ hr ih => exact Nat.lt_trans (ih h) (length_lt_of_readTag hr)

/-- Repeated `next_au` until it returns `None` or fails: the units, the last state, the outcome. -/
def demux (d : FlvH264) (r : List UInt8) : List NalUnit × FlvH264 × Except FlvError Unit :=
  match _h : nextAu d r with
  | (d', _, .error e) => ([], d', .error e)
  | (d', _, .ok none) => ([], d', .ok ())
  | (d', r', .ok (some au)) => (au :: (demux d' r').1, (demux d' r').2)
termination_by r.length
decreasing_by all_goals exact length_lt_of_nextAu _h

theorem demux_eof (h : readTag d r = (d', r', .ok none)) : demux d r = ([], d', .ok ()) := by
  have hn : nextAu d r = (d', r', .ok none) := by
    rw [nextAu]
    split <;> rename_i hr <;> rw [h] at hr <;> cases hr
    rfl
  rw [demux]
  split <;> rename_i hr <;> rw [hn] at hr <;> cases hr
  rfl

theorem demux_emit (h : readTag d r = (d', r', .ok (some (some au)))) :
    demux d r = (au :: (demux d' r').1, (demux d' r').2) := by
  have hn := nextAu_emit h
  rw [demux]
  split <;> rename_i hr <;> rw [hn] at hr <;> cases hr
  rfl

theorem demux_skip (h : readTag d r = (d', r', .ok (some none))) : demux d r = demux d' r' := by
  have hn := nextAu_skip h
  rw [demux, demux]
  rw [hn]

def skipFlvHeader (r : List UInt8) : Except FlvError (List UInt8) :=
  match readExact 13 r with
  | none => .error .unexpectedEof
  | some (hdr, r) => if hdr.take 3 = [0x46, 0x4c, 0x56] then .ok r else .error .notFlv

end DdrdeskHost
