import DdrdeskHost.Delivery
import DdrdeskHost.Demux

namespace DdrdeskHost
open Bytes
set_option autoImplicit true

/-- The reader thread on the bytes that the recorder writes; `fifo` holds those not yet taken. -/
structure Recording where
  pipe : Pipeline := {}
  demuxer : FlvH264 := {}
  fifo : List UInt8 := []
  deriving DecidableEq

namespace Recording

/-- How the read at hand ends if no further bytes come; a stream may also end between two tags. -/
def failure (r : Recording) : Option FlvError :=
  if r.pipe.reader = .header then
    match skipFlvHeader r.fifo with
    | .ok _ => none
    | .error e => some e
  else
    match nextAu r.demuxer r.fifo with
    | (_, _, .ok (some _)) => none
    | (_, _, .ok none) => some .unexpectedEof
    | (_, _, .error e) => some e

/-- What a step of the reader leaves of the bytes; a read that lacks bytes waits. -/
def takes (r : Recording) : PipelineEvent → Option (FlvH264 × List UInt8)
  | .header =>
    match skipFlvHeader r.fifo with
    | .ok rest => some (r.demuxer, rest)
    | .error _ => none
  | .demux au => nextUnit (r.demuxer, r.fifo) au
  | .broken =>
    match r.failure with
    | none | some .unexpectedEof => none
    | some _ => some (r.demuxer, r.fifo)
  | .eof => if r.failure = some .unexpectedEof then some (r.demuxer, r.fifo) else none
  | _ => some (r.demuxer, r.fifo)

/-- A step of `read_loop`, of the recorder, or of the task. -/
def step (r : Recording) (e : PipelineEvent) : Option Recording :=
  (r.takes e).bind fun x =>
    (r.pipe.step e).map fun p => { pipe := p, demuxer := x.1, fifo := x.2 }

/-- The recorder writes once it has opened the FIFO. -/
def record (r : Recording) (chunk : List UInt8) : Option Recording :=
  if r.pipe.recorder = .writing then some { r with fifo := r.fifo ++ chunk } else none

end Recording

/-- What a step makes of the reader's place in `read_loop`. -/
inductive Reader.Moves : Reader → PipelineEvent → Reader → Prop
  | stays (hd : demuxed [e] = []) (hx : ∀ r : Recording, r.takes e = some (r.demuxer, r.fifo)) :
    Moves q e q
  | opens : Moves .opening .open .header
  | header : Moves .header .header .checking
  | checks : Moves .checking .check .demuxing
  | demuxes (au : NalUnit) : Moves .demuxing (.demux au) (.sending au)
  | ends (hd : demuxed [e] = []) : Moves q e .finished
  | sends : Moves (.sending au) .send .checking

theorem Pipeline.readerMoves {s : Pipeline} (h : s.step e = some t) :
    s.reader.Moves e t.reader := by
  cases e with
  | «open» =>
    obtain ⟨⟨hr, -⟩, h⟩ := Option.ite_none_right_eq_some.1 h
    cases h
    rw [hr]
    exact .opens
  | header =>
    obtain ⟨hr, h⟩ := Option.ite_none_right_eq_some.1 h
    cases h
    rw [hr]
    exact .header
  | check =>
    obtain ⟨hr, h⟩ := Option.ite_none_right_eq_some.1 h
    cases h
    rw [hr]
    simp only
    split
    · exact .ends rfl
    · exact .checks
  | demux au =>
    obtain ⟨hr, h⟩ := Option.ite_none_right_eq_some.1 h
    cases h
    rw [hr]
    exact .demuxes au
  | broken | eof =>
    obtain ⟨-, h⟩ := Option.ite_none_right_eq_some.1 h
    cases h
    exact .ends rfl
  | send =>
    rw [step] at h
    split at h
    · next au hr =>
      rw [hr]
      split at h
      · cases h
        exact .sends
      · split at h
        · cases h
        · cases h
          exact .sends
    · cases h
  | recv =>
    rw [step] at h
    split at h
    · cases h
      exact .stays rfl fun _ => rfl
    · cases h
  | recorderExit =>
    obtain ⟨-, h⟩ := Option.ite_none_left_eq_some.1 h
    cases h
    exact .stays rfl fun _ => rfl
  | _ =>
    obtain ⟨-, h⟩ := Option.ite_none_right_eq_some.1 h
    cases h
    exact .stays rfl fun _ => rfl

/-- The access units of a recorded stream. -/
def unitsOf (stream : List UInt8) : List NalUnit :=
  match skipFlvHeader stream with
  | .ok body => (demux {} body).1
  | .error _ => []

/-- The reader has read the header of the stream. -/
def Reader.begun : Reader → Bool
  | .opening | .header => false
  | _ => true

/-- How the reader stands to the bytes recorded so far, after it emitted these units. -/
inductive Recording.Reads (r : Recording) (stream : List UInt8) : List NalUnit → Prop
  | waits (hr : r.pipe.reader.begun = false) (hf : r.fifo = stream) (hd : r.demuxer = {}) :
    Reads r stream []
  | reads (hr : r.pipe.reader.begun = true) (hb : skipFlvHeader stream = .ok body)
      (hrun : Run (Steps nextUnit) ({}, body) us (r.demuxer, r.fifo)) : Reads r stream us
  | ended (hr : r.pipe.reader = .finished) (hp : us <+: unitsOf stream) : Reads r stream us

theorem skipFlvHeader_append (h : skipFlvHeader s = .ok r) (t : List UInt8) :
    skipFlvHeader (s ++ t) = .ok (r ++ t) := by
  rw [skipFlvHeader] at h
  split at h
  · cases h
  · next hdr r' hr =>
    obtain ⟨rfl, hlen⟩ := readExact_eq_some hr
    split at h
    · next hf =>
      cases h
      rw [skipFlvHeader, List.append_assoc, readExact_append hlen]
      simp only [hf, ↓reduceIte]
    · cases h

theorem nextAu_append (h : nextAu d s = (d', r, .ok (some u))) (t : List UInt8) :
    nextAu d (s ++ t) = (d', r ++ t, .ok (some u)) := by
  fun_induction nextAu d s with
  | case1 => cases h
  | case2 => cases h
  | case3 d s d₁ r₁ au hr =>
    cases h
    obtain ⟨tag, rfl, hs⟩ := FlvH264.step_of_readTag hr
    rw [List.append_assoc]
    exact nextAu_emit (FlvH264.readTag_of_step hs _)
  | case4 d s d₁ r₁ hr ih =>
    obtain ⟨tag, rfl, hs⟩ := FlvH264.step_of_readTag hr
    rw [List.append_assoc, nextAu_skip (FlvH264.readTag_of_step hs _)]
    exact ih h

theorem nextUnits_append (h : Run (Steps nextUnit) x us y) (t : List UInt8) :
    Run (Steps nextUnit) (x.1, x.2 ++ t) us (y.1, y.2 ++ t) := by
  induction h with
  | nil => exact .nil _
  | cons hst _ ih =>
    refine .cons ?_ ih
    rw [Steps, nextUnit_eq_some] at hst ⊢
    exact nextAu_append hst t

theorem demux_of_nextAu (h : nextAu d s = (d', r, .ok (some u))) :
    demux d s = (u :: (demux d' r).1, (demux d' r).2) := by
  rw [demux]
  split <;> rename_i hr <;> rw [h] at hr <;> cases hr
  rfl

theorem nextUnits_prefix (h : Run (Steps nextUnit) x us y) : us <+: (demux x.1 x.2).1 := by
  induction h with
  | nil => exact List.nil_prefix
  | cons hst _ ih =>
    rw [Steps, nextUnit_eq_some] at hst
    rw [demux_of_nextAu hst]
    exact List.cons_prefix_cons.2 ⟨rfl, ih⟩

theorem unitsOf_ok (h : skipFlvHeader stream = .ok body) :
    unitsOf stream = (demux {} body).1 := by
  rw [unitsOf, h]

theorem prefix_unitsOf (s t : List UInt8) : unitsOf s <+: unitsOf (s ++ t) := by
  cases h : skipFlvHeader s with
  | error e =>
    rw [unitsOf, h]
    exact List.nil_prefix
  | ok body =>
    rw [unitsOf_ok h, unitsOf_ok (skipFlvHeader_append h t)]
    exact demux_prefix {} body t

namespace Recording
variable {r r' : Recording} {stream : List UInt8} {us : List NalUnit}

theorem step_eq_some (h : r.step e = some r') :
    ∃ d rest p, r.takes e = some (d, rest) ∧ r.pipe.step e = some p ∧
      r' = { pipe := p, demuxer := d, fifo := rest } := by
  obtain ⟨⟨d, rest⟩, ht, h⟩ := Option.bind_eq_some_iff.1 h
  obtain ⟨p, hp, he⟩ := Option.map_eq_some_iff.1 h
  exact ⟨d, rest, p, ht, hp, he.symm⟩

theorem Reads.readable (h : r.Reads stream us) : us <+: unitsOf stream := by
  cases h with
  | waits => exact List.nil_prefix
  | reads hr hb hrun =>
    rw [unitsOf_ok hb]
    exact nextUnits_prefix hrun
  | ended hr hp => exact hp

theorem Reads.start : ({} : Recording).Reads [] [] := .waits rfl rfl rfl

theorem Reads.of_waits (h : r.Reads stream us) (hr : r.pipe.reader.begun = false) :
    us = [] ∧ r.fifo = stream ∧ r.demuxer = {} := by
  cases h with
  | waits _ hf hd => exact ⟨rfl, hf, hd⟩
  | reads hr' => cases hr.symm.trans hr'
  | ended hr' =>
    rw [hr'] at hr
    cases hr

theorem Reads.of_begun (h : r.Reads stream us) (hr : r.pipe.reader.begun = true)
    (hf : r.pipe.reader ≠ .finished) :
    ∃ body, skipFlvHeader stream = .ok body ∧
      Run (Steps nextUnit) ({}, body) us (r.demuxer, r.fifo) := by
  cases h with
  | waits hr' => cases hr.symm.trans hr'
  | reads _ hb hrun => exact ⟨_, hb, hrun⟩
  | ended hr' => exact absurd hr' hf

theorem Reads.keep (h : r.Reads stream us) (hp : p.reader = r.pipe.reader) :
    Reads { r with pipe := p } stream us := by
  cases h with
  | waits hr hf hd => exact .waits (hp ▸ hr) hf hd
  | reads hr hb hrun => exact .reads (hp ▸ hr) hb hrun
  | ended hr hpre => exact .ended (hp.trans hr) hpre

theorem takes_header (h : r.takes .header = some (d, rest)) :
    skipFlvHeader r.fifo = .ok rest ∧ d = r.demuxer := by
  rw [takes] at h
  split at h
  · next hs =>
    cases h
    exact ⟨hs, rfl⟩
  · cases h

/-- What the reader emits is what `next_au` returns on the recorded bytes. -/
theorem Reads.step (h : r.Reads stream us) (hst : r.step e = some r') :
    r'.Reads stream (us ++ demuxed [e]) := by
  obtain ⟨d, rest, p, ht, hp, rfl⟩ := step_eq_some hst
  have hm := Pipeline.readerMoves hp
  generalize hr : r.pipe.reader = q at hm
  generalize hq : p.reader = q' at hm
  cases hm with
  | stays hd hx =>
    cases ht.symm.trans (hx r)
    rw [hd, List.append_nil]
    exact h.keep (hq.trans hr.symm)
  | opens =>
    cases ht
    obtain ⟨rfl, hf, hd⟩ := h.of_waits (by rw [hr]; rfl)
    exact .waits (by rw [hq]; rfl) hf hd
  | header =>
    obtain ⟨hs, rfl⟩ := takes_header ht
    obtain ⟨rfl, rfl, hd⟩ := h.of_waits (by rw [hr]; rfl)
    exact .reads (by rw [hq]; rfl) hs (hd ▸ .nil _)
  | checks | sends =>
    cases ht
    obtain ⟨body, hb, hrun⟩ := h.of_begun (by rw [hr]; rfl) (by simp [hr])
    exact .reads (by rw [hq]; rfl) hb (by simpa [demuxed] using hrun)
  | demuxes au =>
    obtain ⟨body, hb, hrun⟩ := h.of_begun (by rw [hr]; rfl) (by simp [hr])
    exact .reads (by rw [hq]; rfl) hb (hrun.append (.single ht))
  | ends hd =>
    rw [hd, List.append_nil]
    exact .ended hq h.readable

theorem Reads.record (h : r.Reads stream us) (hst : r.record chunk = some r') :
    r'.Reads (stream ++ chunk) us := by
  obtain ⟨-, hst⟩ := Option.ite_none_right_eq_some.1 hst
  cases hst
  cases h with
  | waits hr hf hd => exact .waits hr (congrArg (· ++ chunk) hf) hd
  | reads hr hb hrun =>
    exact .reads hr (skipFlvHeader_append hb chunk) (nextUnits_append hrun chunk)
  | ended hr hp => exact .ended hr (hp.trans (prefix_unitsOf stream chunk))

end Recording

end DdrdeskHost
