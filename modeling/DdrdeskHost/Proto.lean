import Mathlib.Data.Rat.Defs
import DdrdeskHost.Lib.PrefixCode

namespace DdrdeskHost
open Bytes
set_option autoImplicit true

def maxFrame : Nat := 8 * 1024 * 1024

namespace Proto

def clientHello : UInt8 := 0x01
def serverHello : UInt8 := 0x02
def authFail : UInt8 := 0x03
def viewport : UInt8 := 0x04
def input : UInt8 := 0x05
def video : UInt8 := 0x06
def ping : UInt8 := 0x07
def pong : UInt8 := 0x08
def requestKeyframe : UInt8 := 0x09
def status : UInt8 := 0x0A
def goodbye : UInt8 := 0x0B
def bitrateHint : UInt8 := 0x0C
def uiScale : UInt8 := 0x0E

def videoFlagKey : UInt8 := 0x01

end Proto

/-- The fields of a ClientHello that the session reads; an `f32` is read as its exact value. -/
structure ClientHello where
  id : String
  w : UInt32
  h : UInt32
  pointsW : ℚ
  pointsH : ℚ
  scale : ℚ
  orientation : String
  deriving DecidableEq

structure ServerHello where
  ok : Bool
  name : String
  fp : String
  endpoints : List String
  screenW : Nat
  screenH : Nat
  session : String
  deriving DecidableEq

structure Viewport where
  w : UInt32
  h : UInt32
  pointsW : ℚ
  pointsH : ℚ
  scale : ℚ
  orientation : String
  deriving DecidableEq

inductive InputEvent
  | move (dx dy : ℚ)
  | btn (b : String) (d : Bool)
  | wheel (dx dy : ℚ)
  | key (k : String) (d : Bool)
  | text (s : String)
  deriving DecidableEq

structure Status where
  state : String
  msg : String
  deriving DecidableEq

structure BitrateHint where
  kbps : UInt32
  deriving DecidableEq

structure UiScale where
  factor : ℚ
  deriving DecidableEq

structure AuthFail where
  error : String
  deriving DecidableEq

/-- A frame is a type byte and a payload. -/
abbrev Frame := UInt8 × List UInt8

/-- Where `read_frame` fails; the two reads fail at the end of the stream. -/
inductive ReadError
  | readLength
  | invalidLength (len : Nat)
  | readBody
  deriving DecidableEq

def readFrame (r : List UInt8) : Except ReadError (Frame × List UInt8) :=
  match readExact 4 r with
  | none => .error .readLength
  | some (lenb, r) =>
    let len := ofBE lenb
    if len = 0 ∨ maxFrame < len then .error (.invalidLength len)
    else
      match readExact len r with
      | none => .error .readBody
      | some (buf, r) => .ok ((buf.headD 0, buf.tail), r)

/-- The bytes that `write_frame` sends; the length is cast to `u32`. -/
def writeFrame (typ : UInt8) (payload : List UInt8) : List UInt8 :=
  toBE 4 ((1 + payload.length) % 2 ^ 32) ++ (typ :: payload)

def videoPayload (flags : UInt8) (ptsUs : UInt64) (nal : List UInt8) : List UInt8 :=
  flags :: (toBE 8 ptsUs.toNat ++ nal)

def parseVideo (payload : List UInt8) : Option (UInt8 × UInt64 × List UInt8) :=
  if payload.length < 9 then none
  else some (payload.headD 0, UInt64.ofNat (ofBE ((payload.drop 1).take 8)), payload.drop 9)

/-- A frame that the reading side accepts. -/
def Frame.Fits (f : Frame) : Prop := 1 + f.2.length ≤ maxFrame

instance (f : Frame) : Decidable f.Fits := inferInstanceAs (Decidable (_ ≤ _))

theorem maxFrame_lt : maxFrame < 2 ^ 32 := by decide

@[simp] theorem length_writeFrame (typ : UInt8) (payload : List UInt8) :
    (writeFrame typ payload).length = 5 + payload.length := by
  simp only [writeFrame, List.length_append, length_toBE, List.length_cons]
  omega

theorem readFrame_eq_ok (h : readFrame r = .ok (f, s)) :
    f.Fits ∧ r = writeFrame f.1 f.2 ++ s := by
  unfold readFrame at h
  split at h
  · cases h
  · next lenb r' hlen =>
    obtain ⟨hr, h4⟩ := readExact_eq_some hlen
    simp only at h
    split at h
    · cases h
    · next hb =>
      split at h
      · cases h
      · next buf r'' hbuf =>
        obtain ⟨hr', hn⟩ := readExact_eq_some hbuf
        cases h
        cases buf with
        | nil => exact absurd (.inl hn.symm) hb
        | cons typ payload =>
          have hlen' : 1 + payload.length = ofBE lenb := by
            rw [← hn, List.length_cons, Nat.add_comm]
          have hmax : 1 + payload.length ≤ maxFrame := by
            rw [hlen']
            exact Nat.le_of_not_lt fun h => hb (.inr h)
          have hbe : toBE 4 (ofBE lenb) = lenb := by rw [← h4, toBE_ofBE]
          constructor
          · exact hmax
          · simp only [List.headD_cons, List.tail_cons, writeFrame]
            rw [Nat.mod_eq_of_lt (Nat.lt_of_le_of_lt hmax maxFrame_lt), hlen', hbe, hr, hr',
              List.append_assoc]

theorem ofBE_length_prefix {payload : List UInt8} (h : 1 + payload.length ≤ maxFrame) :
    ofBE (toBE 4 ((1 + payload.length) % 2 ^ 32)) = 1 + payload.length := by
  have hlt := Nat.lt_of_le_of_lt h maxFrame_lt
  rw [Nat.mod_eq_of_lt hlt]
  exact ofBE_toBE hlt

theorem readFrame_writeFrame {payload : List UInt8} (h : 1 + payload.length ≤ maxFrame)
    (s : List UInt8) :
    readFrame (writeFrame typ payload ++ s) = .ok ((typ, payload), s) := by
  have hb : ¬(1 + payload.length = 0 ∨ maxFrame < 1 + payload.length) := by omega
  have hbody : readExact (1 + payload.length) (typ :: payload ++ s) = some (typ :: payload, s) :=
    readExact_append (by rw [List.length_cons, Nat.add_comm])
  simp only [readFrame, writeFrame, List.append_assoc, readExact_append (length_toBE 4 _),
    ofBE_length_prefix h, hb, ↓reduceIte, hbody, List.headD_cons, List.tail_cons]

theorem readFrame_append (h : readFrame r = .ok (f, s)) (x : List UInt8) :
    readFrame (r ++ x) = .ok (f, s ++ x) := by
  obtain ⟨hf, rfl⟩ := readFrame_eq_ok h
  rw [List.append_assoc]
  exact readFrame_writeFrame hf (s ++ x)

/-- Framing as a prefix code. -/
def frameCode : PrefixCode Frame UInt8 where
  Valid := Frame.Fits
  encode f := writeFrame f.1 f.2
  decode r := (readFrame r).toOption
  decode_encode h := by rw [readFrame_writeFrame h]; rfl
  encode_decode {r f s} h := by
    cases hr : readFrame r with
    | error e => rw [hr] at h; cases h
    | ok p => rw [hr] at h; cases h; exact readFrame_eq_ok hr
  encode_ne_nil {f} h := by
    have hl := congrArg List.length h
    rw [length_writeFrame, List.length_nil] at hl
    omega

theorem frameCode_decode_some : frameCode.decode r = some p ↔ readFrame r = .ok p := by
  change (readFrame r).toOption = some p ↔ _
  cases readFrame r with
  | error e => simp [Except.toOption]
  | ok q => exact ⟨fun h => by cases h; rfl, fun h => by cases h; rfl⟩

theorem frameCode_decode_none : frameCode.decode r = none ↔ ∃ e, readFrame r = .error e := by
  change (readFrame r).toOption = none ↔ _
  cases readFrame r with
  | error e => exact ⟨fun _ => ⟨e, rfl⟩, fun _ => rfl⟩
  | ok q => simp [Except.toOption]

/-- The bytes of a list of frames written one after another. -/
abbrev writeFrames (fs : List Frame) : List UInt8 := frameCode.encodeAll fs

@[simp] theorem writeFrames_nil : writeFrames [] = [] := rfl

theorem writeFrames_append (fs gs : List Frame) :
    writeFrames (fs ++ gs) = writeFrames fs ++ writeFrames gs := frameCode.encodeAll_append fs gs

theorem writeFrames_singleton (f : Frame) : writeFrames [f] = writeFrame f.1 f.2 :=
  List.append_nil _

theorem parseVideo_videoPayload (flags : UInt8) (ptsUs : UInt64) (nal : List UInt8) :
    parseVideo (videoPayload flags ptsUs nal) = some (flags, ptsUs, nal) := by
  have hlen : ¬(videoPayload flags ptsUs nal).length < 9 := by
    simp only [videoPayload, List.length_cons, List.length_append, length_toBE]
    omega
  have hpts : ofBE (toBE 8 ptsUs.toNat) = ptsUs.toNat := ofBE_toBE ptsUs.toNat_lt
  have htake : (toBE 8 ptsUs.toNat ++ nal).take 8 = toBE 8 ptsUs.toNat :=
    List.take_left' (length_toBE 8 _)
  have hdrop : (toBE 8 ptsUs.toNat ++ nal).drop 8 = nal := List.drop_left' (length_toBE 8 _)
  rw [parseVideo, if_neg hlen]
  simp only [videoPayload, List.headD_cons, List.drop_succ_cons, List.drop_zero, htake, hdrop,
    hpts, UInt64.ofNat_toNat]

theorem length_of_parseVideo (h : parseVideo p = some (flags, ptsUs, nal)) :
    p.length = 9 + nal.length := by
  rw [parseVideo] at h
  split at h
  · cases h
  · next hlen =>
    cases h
    rw [List.length_drop]
    omega

end DdrdeskHost
