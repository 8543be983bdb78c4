import DdrdeskHost.Relay

namespace DdrdeskHost
open Bytes
set_option autoImplicit true

/-- The access unit that a client reads from a frame. -/
def picture (f : Frame) : Option NalUnit :=
  if f.1 = Proto.video then
    (parseVideo f.2).map fun v => ⟨v.1 &&& Proto.videoFlagKey ≠ 0, v.2.1, v.2.2⟩
  else none

/-- The access units that a client reads from the bytes it gets. -/
def pictures (received : List UInt8) : List NalUnit := (readFrames received).1.filterMap picture

/-- The frames that carry JSON fit. -/
def RepliesFit (es : List Effect) : Prop :=
  ∀ f ∈ wrote es, f.1 ≠ Proto.video → f.1 ≠ Proto.pong → f.Fits

instance (es : List Effect) : Decidable (RepliesFit es) :=
  inferInstanceAs (Decidable (∀ f ∈ wrote es, _ → _ → _))

namespace Relay

/-- The bytes that have reached the client. -/
def sent (s : Relay) : List UInt8 := sentBytes s.session.1.2

/-- What waits on the channel. -/
def queued (s : Relay) : List NalUnit :=
  match s.recording with
  | some r => r.pipe.queue
  | none => []

/-- The access unit that the reader waits to send. -/
def pending (s : Relay) : List NalUnit :=
  match s.recording with
  | some r => r.pipe.pending
  | none => []

end Relay

/-- The frames of a step that carry pictures carry those that it takes from the channel; a PONG has
two times in it. -/
structure Conveys (es : List Effect) (us : List NalUnit) : Prop where
  units : (wrote es).filterMap picture = us
  videos : ∀ f ∈ wrote es, f.1 = Proto.video → picture f ≠ none
  pongs : ∀ f ∈ wrote es, f.1 = Proto.pong → f.2.length = 16

theorem Conveys.silent (h : wrote es = []) : Conveys es [] := by
  constructor <;> rw [h]
  · rfl
  · simp
  · simp

theorem Conveys.other (h : wrote es = [(typ, payload)]) (hv : typ ≠ Proto.video)
    (hp : typ ≠ Proto.pong) : Conveys es [] := by
  constructor
  · rw [h, List.filterMap_cons, picture, if_neg hv]
    rfl
  · rw [h]
    intro g hg
    rw [List.mem_singleton.1 hg]
    exact fun h => absurd h hv
  · rw [h]
    intro g hg
    rw [List.mem_singleton.1 hg]
    exact fun h => absurd h hp

theorem Conveys.pong (h : wrote es = [(Proto.pong, payload)]) (hlen : payload.length = 16) :
    Conveys es [] := by
  constructor
  · rw [h]
    rfl
  · rw [h]
    intro g hg hv
    rw [List.mem_singleton.1 hg] at hv
    cases hv
  · rw [h]
    intro g hg _
    rw [List.mem_singleton.1 hg]
    exact hlen

theorem Conveys.video (h : wrote es = [(Proto.video, payload)])
    (hp : picture (Proto.video, payload) = some au) : Conveys es [au] := by
  constructor
  · rw [h, List.filterMap_cons, hp]
    rfl
  · rw [h]
    intro g hg _
    rw [List.mem_singleton.1 hg, hp]
    simp
  · rw [h]
    intro g hg hpong
    rw [List.mem_singleton.1 hg] at hpong
    cases hpong

theorem Conveys.append (h : Conveys es us) (h' : Conveys es' us') :
    Conveys (es ++ es') (us ++ us') := by
  constructor
  · rw [wrote_append, List.filterMap_append, h.units, h'.units]
  · intro f hf
    rw [wrote_append] at hf
    rcases List.mem_append.1 hf with hf | hf
    · exact h.videos f hf
    · exact h'.videos f hf
  · intro f hf
    rw [wrote_append] at hf
    rcases List.mem_append.1 hf with hf | hf
    · exact h.pongs f hf
    · exact h'.pongs f hf

section
variable {H : HostState} {S : Serde} {addr : IpAddr} {c : Conn}

end

theorem length_of_picture (h : picture f = some u) : f.2.length = 9 + u.data.length := by
  obtain ⟨-, h⟩ := Option.ite_none_right_eq_some.1 h
  obtain ⟨v, hv, rfl⟩ := Option.map_eq_some_iff.1 h
  exact length_of_parseVideo hv

theorem Conveys.fits (h : Conveys es us) (hr : RepliesFit es)
    (hu : ∀ u ∈ us, u.data.length + 10 ≤ maxFrame) : ∀ f ∈ wrote es, f.Fits := by
  intro f hf
  by_cases hv : f.1 = Proto.video
  · obtain ⟨u, hp⟩ := Option.ne_none_iff_exists'.1 (h.videos f hf hv)
    have hmem : u ∈ us := by
      rw [← h.units]
      exact List.mem_filterMap.2 ⟨f, hf, hp⟩
    have hlen := length_of_picture hp
    have hmax := hu u hmem
    change 1 + f.2.length ≤ maxFrame
    omega
  · by_cases hp : f.1 = Proto.pong
    · change 1 + f.2.length ≤ maxFrame
      rw [h.pongs f hf hp]
      decide
    · exact hr f hf hv hp

theorem Conveys.read (h : Conveys es us) (hs : Sent p es) (hf : ∀ f ∈ wrote es, f.Fits) :
    ∃ lost, us = pictures (sentBytes es) ++ lost ∧ lost.length ≤ 1 ∧
      (lost ≠ [] → p.closing = true) := by
  rcases hs with hb | hcut
  · refine ⟨[], ?_, Nat.zero_le 1, by simp⟩
    rw [pictures, hb, readFrames_writeFrames hf, List.append_nil]
    exact h.units.symm
  · have hdec : Decodes es (wrote es) := Sent.decodes (.inr hcut) hf
    rcases hdec with hall | ⟨gs, last, hw, -, hgs, -⟩
    · refine ⟨[], ?_, Nat.zero_le 1, by simp⟩
      rw [pictures, hall, List.append_nil]
      exact h.units.symm
    · refine ⟨[last].filterMap picture, ?_, List.length_filterMap_le _ _, fun _ => hcut.1⟩
      rw [pictures, hgs, ← List.filterMap_append, ← hw]
      exact h.units.symm

end DdrdeskHost
