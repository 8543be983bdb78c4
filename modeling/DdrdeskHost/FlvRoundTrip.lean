import DdrdeskHost.FlvTags

namespace DdrdeskHost
open Bytes
set_option autoImplicit true

/-- What an FLV tag holds. The three bytes of a composition time stand in front of AVC data. -/
inductive TagBody
  | sequenceHeader (frameType : Fin 16) (cts : Fin (2 ^ 24)) (config : AvcConfig)
  | nalus (frameType : Fin 16) (cts : Fin (2 ^ 24)) (nals : List (List UInt8))
  | endOfSequence (frameType : Fin 16) (rest : List UInt8)
  | otherCodec (data : List UInt8) (codec : data.headD 0 &&& 0x0f ≠ 7)
  | other (tagType : UInt8) (data : List UInt8) (notVideo : tagType ≠ 9)

structure Tag where
  timestamp : UInt32
  body : TagBody

/-- The first byte of AVC video data: the frame type and codec 7. -/
def avcByte (frameType : Fin 16) : UInt8 := UInt8.ofNat (frameType * 16 + 7)

namespace TagBody

def tagType : TagBody → UInt8
  | other t _ _ => t
  | _ => 9

/-- The tag's data, with NAL lengths of `k` bytes. -/
def data (k : Nat) : TagBody → List UInt8
  | sequenceHeader ft cts c => avcByte ft :: 0 :: (toBE 3 cts ++ c.record)
  | nalus ft cts nals => avcByte ft :: 1 :: (toBE 3 cts ++ lengthPrefixed k nals)
  | endOfSequence ft rest => avcByte ft :: 2 :: rest
  | otherCodec data _ => data
  | other _ data _ => data

/-- The length size in force after the tag. -/
def lengthSize (k : Nat) : TagBody → Nat
  | sequenceHeader _ _ c => c.lengthSize
  | _ => k

/-- The parameter sets in force after the tag. -/
def paramSets (ps : List (List UInt8)) : TagBody → List (List UInt8)
  | sequenceHeader _ _ c => c.sps ++ c.pps
  | _ => ps

/-- A NAL unit tag carries a picture, and its lengths can be written in `k` bytes. -/
def Encodable (k : Nat) : TagBody → Prop
  | nalus _ _ nals => (∃ n ∈ nals, n ≠ []) ∧ ∀ n ∈ nals, n.length < 256 ^ k
  | _ => True

end TagBody

/-- A tag as it stands in the file, followed by its own size. -/
def Tag.bytes (k : Nat) (t : Tag) : List UInt8 :=
  let data := t.body.data k
  let ts := toBE 4 t.timestamp.toNat
  t.body.tagType :: (toBE 3 data.length ++ (ts.drop 1 ++ ts.take 1) ++ [0, 0, 0] ++ data ++
    toBE 4 (11 + data.length))

/-- The access unit of a tag, under the parameter sets in force. -/
def Tag.unit (ps : List (List UInt8)) (t : Tag) : Option NalUnit :=
  match t.body with
  | .nalus ft _ nals => some
    { keyframe := decide (ft = 1)
      ptsUs := UInt64.ofNat (1000 * t.timestamp.toNat)
      data := annexB ((if ft = 1 then ps else []) ++ nonEmpty nals) }
  | _ => none

def muxTags (k : Nat) : List Tag → List UInt8
  | [] => []
  | t :: ts => t.bytes k ++ muxTags (t.body.lengthSize k) ts

/-- An FLV file: the 9-byte header with its flags, the first previous-tag size, the tags. -/
def muxFlv (flags : UInt8) (tags : List Tag) : List UInt8 :=
  [0x46, 0x4c, 0x56, 1, flags, 0, 0, 0, 9, 0, 0, 0, 0] ++ muxTags 4 tags

/-- The access units of a file, in order. -/
def units (ps : List (List UInt8)) : List Tag → List NalUnit
  | [] => []
  | t :: ts => (t.unit ps).toList ++ units (t.body.paramSets ps) ts

/-- The tags fit the format when the length size in force is `k`. -/
def Muxable (k : Nat) : List Tag → Prop
  | [] => True
  | t :: ts => (t.body.data k).length < 2 ^ 24 ∧ t.body.Encodable k ∧
      Muxable (t.body.lengthSize k) ts

theorem avcByte_codec (ft : Fin 16) : avcByte ft &&& 0x0f = 7 := by
  revert ft
  decide

theorem avcByte_frameType (ft : Fin 16) : (avcByte ft >>> 4 == 1) = decide (ft = 1) := by
  revert ft
  decide

theorem nonEmpty_ne_nil (h : ∃ n ∈ nals, n ≠ []) : nonEmpty nals ≠ [] := by
  obtain ⟨n, hn, hne⟩ := h
  have hkeep : (!n.isEmpty) = true := by
    simpa only [Bool.not_eq_eq_eq_not, Bool.not_true, List.isEmpty_eq_false_iff] using hne
  exact List.ne_nil_of_mem (List.mem_filter.2 ⟨hn, hkeep⟩)

theorem pts_toNat (ts : UInt32) : (UInt64.ofNat (1000 * ts.toNat)).toNat = 1000 * ts.toNat := by
  have hlt := ts.toNat_lt
  exact UInt64.toNat_ofNat_of_lt' (by simp only [UInt64.size]; omega)

theorem pts_eq (ts : UInt32) : ts.toUInt64 * 1000 = UInt64.ofNat (1000 * ts.toNat) := by
  have hlt := ts.toNat_lt
  apply UInt64.toNat_inj.1
  rw [pts_toNat, UInt64.toNat_mul, UInt32.toNat_toUInt64, Nat.mul_comm]
  exact Nat.mod_eq_of_lt (by simp only [UInt64.reduceToNat]; omega)

theorem readTag_bytes {t : Tag} (hlen : (t.body.data k).length < 2 ^ 24) (d : FlvH264)
    (s : List UInt8) :
    readTag d (t.bytes k ++ s) =
      ((tagBody d t.body.tagType t.timestamp (t.body.data k)).1, s,
        (tagBody d t.body.tagType t.timestamp (t.body.data k)).2.map some) := by
  obtain ⟨a, b, c, habc⟩ : ∃ a b c, toBE 3 (t.body.data k).length = [a, b, c] := ⟨_, _, _, rfl⟩
  obtain ⟨e, f, g, h, hts⟩ : ∃ e f g h, toBE 4 t.timestamp.toNat = [e, f, g, h] :=
    ⟨_, _, _, _, rfl⟩
  have hsize : ofBE [0, a, b, c] = (t.body.data k).length := by
    have ho := ofBE_toBE (n := 3) hlen
    rw [habc] at ho
    rw [← ho]
    simp only [ofBE, UInt8.toNat_zero, Nat.zero_mul, Nat.zero_add]
  have htime : UInt32.ofNat (ofBE [e, f, g, h]) = t.timestamp := by
    rw [← hts, ofBE_toBE (n := 4) t.timestamp.toNat_lt, UInt32.ofNat_toNat]
  have hdata : (t.body.data k).length = tagSize [t.body.tagType, a, b, c, f, g, h, e, 0, 0, 0] :=
    hsize.symm
  let raw : RawTag := ⟨_, t.body.data k, toBE 4 (11 + (t.body.data k).length), rfl, hdata,
    length_toBE 4 _⟩
  have hbytes : t.bytes k = raw.bytes := by
    simp only [Tag.bytes, RawTag.bytes, raw, habc, hts, List.drop_succ_cons, List.drop_zero,
      List.take_succ_cons, List.take_zero, List.cons_append, List.nil_append]
  have htimestamp : raw.timestamp = t.timestamp := htime
  rw [hbytes, readTag_whole, htimestamp]
  rfl

theorem drop_avcHeader (b p : UInt8) (cts : Nat) (s : List UInt8) :
    (b :: p :: (toBE 3 cts ++ s)).drop 5 = s :=
  List.drop_left' (length_toBE 3 cts)

theorem tagBody_unit {t : Tag} (hk : 0 < k) (hk4 : k ≤ 4) (he : t.body.Encodable k) :
    tagBody { spsPps := annexB ps, naluSizeLen := k } t.body.tagType t.timestamp
        (t.body.data k) =
      ({ spsPps := annexB (t.body.paramSets ps), naluSizeLen := t.body.lengthSize k },
        .ok (t.unit ps)) := by
  obtain ⟨ts, body⟩ := t
  cases body with
  | other tt data hne =>
    simp only [tagBody, TagBody.tagType, ne_eq, hne, not_false_eq_true, ↓reduceIte]
    rfl
  | otherCodec data hne =>
    simp only [tagBody, TagBody.tagType, TagBody.data, ne_eq, hne, not_false_eq_true,
      not_true_eq_false, ↓reduceIte, ite_self]
    rfl
  | endOfSequence ft rest =>
    simp only [tagBody, TagBody.tagType, TagBody.data, ne_eq, not_true_eq_false, ↓reduceIte,
      List.headD_cons, avcByte_codec, List.getD_cons_succ, List.getD_cons_zero]
    split <;> rfl
  | sequenceHeader ft cts c =>
    have hlen : ¬(avcByte ft :: 0 :: (toBE 3 cts ++ c.record)).length < 5 := by
      simp only [List.length_cons, List.length_append, length_toBE]
      omega
    have hdrop := drop_avcHeader (avcByte ft) 0 cts c.record
    simp only [tagBody, TagBody.tagType, TagBody.data, ne_eq, not_true_eq_false, ↓reduceIte,
      hlen, List.headD_cons, avcByte_codec, List.getD_cons_succ, List.getD_cons_zero, hdrop,
      c.parseAvcc_record]
    rfl
  | nalus ft cts nals =>
    obtain ⟨hne, hn⟩ := he
    have hlen : ¬(avcByte ft :: 1 :: (toBE 3 cts ++ lengthPrefixed k nals)).length < 5 := by
      simp only [List.length_cons, List.length_append, length_toBE]
      omega
    have hdrop := drop_avcHeader (avcByte ft) 1 cts (lengthPrefixed k nals)
    have hsets : (if (decide (ft = 1) && !(annexB ps).isEmpty) = true then annexB ps else []) =
        annexB (if ft = 1 then ps else []) := by
      by_cases hft : ft = 1
      · cases hps : annexB ps <;> simp [hft, hps]
      · simp only [hft, decide_false, Bool.false_and, Bool.false_eq_true, ↓reduceIte]
        rfl
    have hbad : ¬(k = 0 ∨ 4 < k) := by omega
    have hout : (annexB ((if ft = 1 then ps else []) ++ nonEmpty nals)).isEmpty = false := by
      rw [List.isEmpty_eq_false_iff]
      intro h
      exact nonEmpty_ne_nil hne (List.append_eq_nil_iff.1 (annexB_eq_nil.1 h)).2
    simp only [tagBody, TagBody.tagType, TagBody.data, ne_eq, not_true_eq_false, ↓reduceIte,
      hlen, List.headD_cons, avcByte_codec, avcByte_frameType, List.getD_cons_succ,
      List.getD_cons_zero, hdrop, hsets, avccToAnnexb, hbad, ↓reduceDIte,
      annexbLoop_lengthPrefixed hk hn, ← annexB_append, hout, Bool.false_eq_true, pts_eq]
    rfl

theorem TagBody.lengthSize_bounds (b : TagBody) (hk : 0 < k) (hk4 : k ≤ 4) :
    0 < b.lengthSize k ∧ b.lengthSize k ≤ 4 := by
  cases b with
  | sequenceHeader ft cts c => exact ⟨c.lengthSize_pos, c.lengthSize_le⟩
  | _ => exact ⟨hk, hk4⟩

/-- The state invariant of the tag loop: the stored sets and length size are those in force. -/
theorem demux_muxTags {tags : List Tag} (ps : List (List UInt8)) (hk : 0 < k) (hk4 : k ≤ 4)
    (hm : Muxable k tags) :
    ∃ d, demux { spsPps := annexB ps, naluSizeLen := k } (muxTags k tags) =
      (units ps tags, d, .ok ()) := by
  induction tags generalizing k ps with
  | nil => exact ⟨_, demux_eof rfl⟩
  | cons t ts ih =>
    obtain ⟨hlen, henc, hrest⟩ := hm
    obtain ⟨hk', hk4'⟩ := t.body.lengthSize_bounds hk hk4
    obtain ⟨d, hd⟩ := ih (t.body.paramSets ps) hk' hk4' hrest
    have hread := readTag_bytes hlen { spsPps := annexB ps, naluSizeLen := k }
      (muxTags (t.body.lengthSize k) ts)
    rw [tagBody_unit hk hk4 henc] at hread
    refine ⟨d, ?_⟩
    rw [muxTags, units]
    cases hu : t.unit ps with
    | none =>
      rw [hu] at hread
      rw [demux_skip hread, hd]
      rfl
    | some au =>
      rw [hu] at hread
      rw [demux_emit hread, hd]
      rfl

/-- Demuxing undoes muxing: the access units of the tags, in order, and then the end. -/
theorem demux_muxFlv (flags : UInt8) (tags : List Tag) (hm : Muxable 4 tags) :
    ∃ r d, skipFlvHeader (muxFlv flags tags) = .ok r ∧
      demux {} r = (units [] tags, d, .ok ()) := by
  obtain ⟨d, hd⟩ := demux_muxTags [] (by decide) (by decide) hm
  have hskip : skipFlvHeader (muxFlv flags tags) = .ok (muxTags 4 tags) := by
    rw [skipFlvHeader, muxFlv, readExact_append (n := 13) rfl]
    rfl
  exact ⟨muxTags 4 tags, d, hskip, hd⟩

/-- A header with one-byte NAL lengths, a keyframe with an empty NAL in it, and an audio tag. -/
theorem demux_muxFlv_keyframe :
    ∃ r d, skipFlvHeader (muxFlv 1
      [⟨0, .sequenceHeader 1 0 ⟨1, 100, 0, 31, 1, [[0x67, 100]], [[0x68]], by decide, by decide,
        by decide, by decide, by decide, by decide⟩⟩,
        ⟨0x01000010, .nalus 1 0 [[0x65, 0x88], [], [0x06]]⟩,
        ⟨0x01000011, .other 8 [0xaf] (by decide)⟩]) = .ok r ∧
      demux {} r = ([{ keyframe := true, ptsUs := 16777232000, data :=
        [0, 0, 0, 1, 0x67, 100, 0, 0, 0, 1, 0x68, 0, 0, 0, 1, 0x65, 0x88, 0, 0, 0, 1, 0x06] }],
        d, .ok ()) :=
  demux_muxFlv 1 _
    ⟨by decide, trivial, by decide, ⟨⟨[0x65, 0x88], by decide⟩, by decide⟩, by decide, trivial,
      trivial⟩

end DdrdeskHost
