import DdrdeskHost.Proto

namespace DdrdeskHost
open Bytes
set_option autoImplicit true

theorem length_lt_of_readFrame (h : readFrame r = .ok (f, s)) : s.length < r.length :=
  frameCode.length_lt_of_decode (frameCode_decode_some.2 h)

/-- `read_frame` until it fails: the frames, the bytes before the failing read, the error. -/
def readFrames (r : List UInt8) : List Frame × List UInt8 × ReadError :=
  match _h : readFrame r with
  | .error e => ([], r, e)
  | .ok (f, s) => (f :: (readFrames s).1, (readFrames s).2)
termination_by r.length
decreasing_by all_goals exact length_lt_of_readFrame _h

theorem readFrames_decodeAll (r : List UInt8) :
    (readFrames r).1 = (frameCode.decodeAll r).1 ∧
      (readFrames r).2.1 = (frameCode.decodeAll r).2 := by
  fun_induction readFrames r with
  | case1 r e h =>
    rw [frameCode.decodeAll_none (frameCode_decode_none.2 ⟨e, h⟩)]
    exact ⟨rfl, rfl⟩
  | case2 r f s h ih =>
    rw [frameCode.decodeAll_some (frameCode_decode_some.2 h), ih.1, ih.2]
    exact ⟨rfl, rfl⟩

theorem readFrames_error (r : List UInt8) :
    readFrame (readFrames r).2.1 = .error (readFrames r).2.2 := by
  fun_induction readFrames r with
  | case1 r e h => exact h
  | case2 r f s h ih => exact ih

/-- Reading a stream that was cut off fails because bytes are missing, never for another reason. -/
theorem readFrame_error_of_prefix {fs : List Frame} (hf : ∀ f ∈ fs, f.Fits)
    (hp : p <+: writeFrames fs) (h : readFrame p = .error e) :
    e = .readLength ∨ e = .readBody := by
  cases hr : readExact 4 p with
  | none =>
    simp only [readFrame, hr] at h
    cases h
    exact .inl rfl
  | some q =>
    obtain ⟨lenb, q⟩ := q
    obtain ⟨rfl, h4⟩ := readExact_eq_some hr
    cases fs with
    | nil =>
      have hnil := List.eq_nil_of_prefix_nil hp
      rw [List.append_eq_nil_iff] at hnil
      rw [hnil.1] at h4
      cases h4
    | cons f fs =>
      have hfit : 1 + f.2.length ≤ maxFrame := hf f List.mem_cons_self
      have hb : ¬(1 + f.2.length = 0 ∨ maxFrame < 1 + f.2.length) := by omega
      -- the four bytes that did arrive are the length that `write_frame` wrote
      have hlen : lenb = toBE 4 ((1 + f.2.length) % 2 ^ 32) := by
        obtain ⟨t, ht⟩ := hp
        simp only [writeFrames, PrefixCode.encodeAll_cons, frameCode, writeFrame,
          List.append_assoc] at ht
        exact (List.append_inj ht (h4.trans (length_toBE 4 _).symm)).1
      have hof : ofBE lenb = 1 + f.2.length := by rw [hlen, ofBE_length_prefix hfit]
      simp only [readFrame, hr, hof, hb, ↓reduceIte] at h
      split at h
      · cases h
        exact .inr rfl
      · cases h

theorem readFrames_writeFrames {fs : List Frame} (hf : ∀ f ∈ fs, f.Fits) :
    readFrames (writeFrames fs) = (fs, [], .readLength) := by
  obtain ⟨h₁, h₂⟩ := readFrames_decodeAll (writeFrames fs)
  have he := readFrames_error (writeFrames fs)
  rw [frameCode.decodeAll_encodeAll hf] at h₁ h₂
  rw [h₂] at he
  have herr : (readFrames (writeFrames fs)).2.2 = .readLength := (Except.error.inj he).symm
  exact Prod.ext h₁ (Prod.ext h₂ herr)

/-- Framing loses nothing: written frames read back exactly, what `read_frame` accepts is what
`write_frame` writes, and a cut stream yields its complete frames and then an error. -/
theorem framing_lossless :
    (∀ fs : List Frame, (∀ f ∈ fs, f.Fits) →
      readFrames (writeFrames fs) = (fs, [], .readLength)) ∧
    (∀ r f s, readFrame r = .ok (f, s) → f.Fits ∧ r = writeFrame f.1 f.2 ++ s) ∧
    (∀ (fs : List Frame) (p : List UInt8), (∀ f ∈ fs, f.Fits) → p <+: writeFrames fs →
      ∃ k, frameCode.Complete fs p.length k ∧ (readFrames p).1 = fs.take k ∧
        ((readFrames p).2.2 = .readLength ∨ (readFrames p).2.2 = .readBody)) := by
  refine ⟨?_, ?_, ?_⟩
  · intro fs hf
    exact readFrames_writeFrames hf
  · intro r f s h
    exact readFrame_eq_ok h
  · intro fs p hf hp
    obtain ⟨k, r, hk, hd, hr⟩ := frameCode.decodeAll_truncated hf hp
    obtain ⟨h₁, h₂⟩ := readFrames_decodeAll p
    have he := readFrames_error p
    rw [hd] at h₁ h₂
    rw [h₂] at he
    have hrest : ∀ f ∈ fs.drop k, f.Fits := by
      intro f hm
      exact hf f (List.mem_of_mem_drop hm)
    exact ⟨k, hk, h₁, readFrame_error_of_prefix hrest hr he⟩

/-- Two frames, cut inside the second. -/
theorem framing_lossless_ping :
    ∃ k, frameCode.Complete [(Proto.ping, [1]), (Proto.goodbye, [])] 8 k ∧
      (readFrames [0, 0, 0, 2, 7, 1, 0, 0]).1 =
        [(Proto.ping, [1]), (Proto.goodbye, [])].take k ∧
      ((readFrames [0, 0, 0, 2, 7, 1, 0, 0]).2.2 = .readLength ∨
        (readFrames [0, 0, 0, 2, 7, 1, 0, 0]).2.2 = .readBody) :=
  framing_lossless.2.2 [(Proto.ping, [1]), (Proto.goodbye, [])] [0, 0, 0, 2, 7, 1, 0, 0]
    (by decide) ⟨[0, 1, 11], rfl⟩

end DdrdeskHost
