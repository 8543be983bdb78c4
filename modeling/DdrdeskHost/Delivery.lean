import DdrdeskHost.Capture

namespace DdrdeskHost
set_option autoImplicit true

/-- The access units that a run demuxes, in order. -/
def demuxed (es : List PipelineEvent) : List NalUnit :=
  es.filterMap fun
    | .demux au => some au
    | _ => none

@[simp] theorem demuxed_append (es es' : List PipelineEvent) :
    demuxed (es ++ es') = demuxed es ++ demuxed es' := List.filterMap_append

namespace Pipeline

/-- The access unit that the reader goes to send. -/
def pending (s : Pipeline) : List NalUnit :=
  match s.reader with
  | .sending au => [au]
  | _ => []

/-- What a step does to the access units. -/
inductive Moves (s : Pipeline) : PipelineEvent → Pipeline → Prop
  | keeps (hd : demuxed [e] = []) (hp : t.pending = s.pending) (hh : t.handled = s.handled)
      (hq : t.queue = s.queue) (ht : t.taken = s.taken) : Moves s e t
  | demux (au : NalUnit) (hr : s.reader = .demuxing) :
    Moves s (.demux au) { s with reader := .sending au }
  | sent (hr : s.reader = .sending au) (hroom : s.queue.length < queueCapacity) :
    Moves s .send
      { s with reader := .checking, queue := s.queue ++ [au], handled := s.handled ++ [(au, true)] }
  | dropped (hr : s.reader = .sending au) (hfull : queueCapacity ≤ s.queue.length)
      (hk : au.keyframe = false) :
    Moves s .send { s with reader := .checking, handled := s.handled ++ [(au, false)] }
  | received (hq : s.queue = au :: q) :
    Moves s .recv { s with task := .writing, queue := q, taken := s.taken ++ [au] }

theorem pending_eq_nil {s : Pipeline} (h : ∀ au, s.reader ≠ .sending au) : s.pending = [] := by
  rw [pending]
  split
  · next au hr => exact absurd hr (h au)
  · rfl

theorem Moves.reader {s : Pipeline} (hd : demuxed [e] = []) (h : ∀ au, s.reader ≠ .sending au)
    (h' : ∀ au, r ≠ .sending au) : s.Moves e { s with reader := r } := by
  have hs := pending_eq_nil h
  have ht : pending { s with reader := r } = [] := pending_eq_nil h'
  exact .keeps hd (ht.trans hs.symm) rfl rfl rfl

theorem reading_sending {s : Pipeline} (h : s.reading = true) (au : NalUnit) :
    s.reader ≠ .sending au := by
  intro hr
  rw [reading, hr] at h
  cases h

theorem moves_send {s : Pipeline} (h : s.step .send = some t) : s.Moves .send t := by
  rw [step] at h
  split at h
  · next au hr =>
    split at h
    · next hroom =>
      cases h
      exact .sent hr hroom
    · next hfull =>
      cases hk : au.keyframe with
      | true =>
        rw [hk] at h
        cases h
      | false =>
        rw [hk] at h
        cases h
        exact .dropped hr (Nat.le_of_not_lt hfull) hk
  · cases h

theorem moves_recv {s : Pipeline} (h : s.step .recv = some t) : s.Moves .recv t := by
  rw [step] at h
  split at h
  · next hq =>
    cases h
    exact .received hq
  · cases h

theorem moves {s : Pipeline} (h : s.step e = some t) : s.Moves e t := by
  cases e with
  | send => exact moves_send h
  | recv => exact moves_recv h
  | demux au =>
    obtain ⟨hr, h⟩ := Option.ite_none_right_eq_some.1 h
    cases h
    exact .demux au hr
  | «open» =>
    obtain ⟨⟨hr, -⟩, h⟩ := Option.ite_none_right_eq_some.1 h
    cases h
    exact .reader rfl (by simp [hr]) (by simp)
  | header =>
    obtain ⟨hr, h⟩ := Option.ite_none_right_eq_some.1 h
    cases h
    exact .reader rfl (by simp [hr]) (by simp)
  | check =>
    obtain ⟨hr, h⟩ := Option.ite_none_right_eq_some.1 h
    cases h
    apply Moves.reader rfl
    · simp [hr]
    · cases s.stop <;> simp
  | broken =>
    obtain ⟨hr, h⟩ := Option.ite_none_right_eq_some.1 h
    cases h
    exact .reader rfl (reading_sending hr) (by simp)
  | eof =>
    obtain ⟨⟨hr, -⟩, h⟩ := Option.ite_none_right_eq_some.1 h
    cases h
    exact .reader rfl (reading_sending hr) (by simp)
  | recorderExit =>
    obtain ⟨-, h⟩ := Option.ite_none_left_eq_some.1 h
    cases h
    exact .keeps rfl rfl rfl rfl rfl
  | _ =>
    obtain ⟨-, h⟩ := Option.ite_none_right_eq_some.1 h
    cases h
    exact .keeps rfl rfl rfl rfl rfl

end Pipeline

/-- Every access unit is on its way or has been handled; the handled ones reached the session or
its queue, but for dropped ones, which are no keyframes. -/
structure Delivered (us : List NalUnit) (s : Pipeline) : Prop where
  account : s.handled.map Prod.fst ++ s.pending = us
  delivered : s.taken ++ s.queue = (s.handled.filter Prod.snd).map Prod.fst
  keyframes : ∀ x ∈ s.handled, x.2 = false → x.1.keyframe = false
  room : s.queue.length ≤ queueCapacity

theorem Delivered.start : Delivered [] {} := by
  constructor <;> simp [Pipeline.pending]

theorem Delivered.step (hs : Delivered us s) (h : s.step e = some t) :
    Delivered (us ++ demuxed [e]) t := by
  cases Pipeline.moves h with
  | keeps hd hp hh hq ht =>
    rw [hd, List.append_nil]
    constructor
    · rw [hh, hp]
      exact hs.account
    · rw [ht, hq, hh]
      exact hs.delivered
    · rw [hh]
      exact hs.keyframes
    · rw [hq]
      exact hs.room
  | demux au hr =>
    have hp : s.pending = [] := Pipeline.pending_eq_nil (by simp [hr])
    have hus := hs.account
    rw [hp, List.append_nil] at hus
    exact ⟨congrArg (· ++ [au]) hus, hs.delivered, hs.keyframes, hs.room⟩
  | @sent au hr hroom =>
    have hp : s.pending = [au] := by rw [Pipeline.pending, hr]
    have hus := hs.account
    rw [hp] at hus
    constructor
    · simpa [Pipeline.pending, demuxed] using hus
    · simp [← List.append_assoc, hs.delivered]
    · intro x hx hd
      rcases List.mem_append.1 hx with hx | hx
      · exact hs.keyframes x hx hd
      · rw [List.mem_singleton.1 hx] at hd
        cases hd
    · simpa [Nat.succ_le_iff] using hroom
  | @dropped au hr hfull hk =>
    have hp : s.pending = [au] := by rw [Pipeline.pending, hr]
    have hus := hs.account
    rw [hp] at hus
    constructor
    · simpa [Pipeline.pending, demuxed] using hus
    · simp [hs.delivered]
    · intro x hx hd
      rcases List.mem_append.1 hx with hx | hx
      · exact hs.keyframes x hx hd
      · rw [List.mem_singleton.1 hx]
        exact hk
    · exact hs.room
  | @received au q hq =>
    have hd := hs.delivered
    have hroom := hs.room
    rw [hq] at hd hroom
    constructor
    · simpa [Pipeline.pending, demuxed] using hs.account
    · simpa using hd
    · exact hs.keyframes
    · exact Nat.le_of_succ_le hroom

theorem Delivered.run (h : Run (Steps Pipeline.step) {} es s) : Delivered (demuxed es) s := by
  apply h.invariant_trace (I := fun p t => Delivered (demuxed p) t) (p := [])
  · intro p s e t hs hst
    rw [demuxed_append]
    exact hs.step hst
  · exact Delivered.start

theorem Delivered.filter_keyframe (hs : Delivered us s) :
    (s.handled.map Prod.fst).filter (·.keyframe) =
      (s.taken ++ s.queue).filter (·.keyframe) := by
  rw [hs.delivered, List.filter_map, List.filter_map, List.filter_filter]
  congr 1
  apply List.filter_congr
  intro x hx
  cases hb : x.2 with
  | true => simp
  | false => simp [hs.keyframes x hx hb]

/-- What the session has taken and what is queued is a part of what was demuxed, in order; it has
all the keyframes but the one that the reader waits to send; the queue holds at most four. -/
theorem keyframes_delivered (es : List PipelineEvent) (s : Pipeline)
    (h : Run (Steps Pipeline.step) {} es s) :
    (s.taken ++ s.queue).Sublist (demuxed es) ∧
    (demuxed es).filter (·.keyframe) =
      (s.taken ++ s.queue).filter (·.keyframe) ++ s.pending.filter (·.keyframe) ∧
    s.queue.length ≤ 4 := by
  have hd := Delivered.run h
  have hsub : ((s.handled.filter Prod.snd).map Prod.fst).Sublist (s.handled.map Prod.fst) :=
    List.filter_sublist.map Prod.fst
  constructor
  · rw [hd.delivered, ← hd.account]
    exact hsub.trans (List.sublist_append_left _ _)
  · constructor
    · rw [← hd.account, List.filter_append, hd.filter_keyframe]
    · exact hd.room

/-- Four units fill the queue, a fifth is dropped, and a keyframe waits. -/
def fullQueue : List PipelineEvent :=
  .open :: .header :: (List.replicate 5 [.check, .demux ⟨false, 0, [1]⟩, .send]).flatten ++
    [.check, .demux ⟨true, 0, [5]⟩]

theorem keyframes_delivered_full :
    ∃ s : Pipeline, s.pending = [⟨true, 0, [5]⟩] ∧
      (s.taken ++ s.queue).Sublist (demuxed fullQueue) ∧
      (demuxed fullQueue).filter (·.keyframe) =
        (s.taken ++ s.queue).filter (·.keyframe) ++ s.pending.filter (·.keyframe) ∧
      s.queue.length ≤ 4 := by
  have hrun : (fullQueue.foldlM Pipeline.step {}).map Pipeline.pending =
      some [⟨true, 0, [5]⟩] := by decide +kernel
  obtain ⟨s, hs, hp⟩ := Option.map_eq_some_iff.1 hrun
  exact ⟨s, hp, keyframes_delivered fullQueue s (run_steps_iff.2 hs)⟩

theorem Pipeline.handled_prefix {s : Pipeline} (h : s.step e = some t) :
    s.handled <+: t.handled := by
  cases Pipeline.moves h with
  | keeps hd hp hh hq ht =>
    rw [hh]
  | demux au hr => exact List.prefix_rfl
  | sent hr hroom => exact List.prefix_append _ _
  | dropped hr hfull hk => exact List.prefix_append _ _
  | received hq => exact List.prefix_rfl

/-- The reader came to send this unit, behind those handled before it, while the queue was full. -/
def MetFull (es : List PipelineEvent) (before : List (NalUnit × Bool)) (au : NalUnit) : Prop :=
  ∃ es₁ es₂ r, es = es₁ ++ .send :: es₂ ∧ Run (Steps Pipeline.step) {} es₁ r ∧
    r.handled = before ∧ r.reader = .sending au ∧ r.queue.length = queueCapacity

theorem append_singleton_prefix {a c : α} (hp : r <+: p) (h : p ++ [a] <+: r ++ [c]) :
    p = r ∧ a = c := by
  have hle : r.length ≤ p.length := hp.length_le
  have hlen : (p ++ [a]).length = (r ++ [c]).length := by
    have hge := h.length_le
    simp only [List.length_append, List.length_singleton] at hge ⊢
    omega
  have he := h.eq_of_length hlen
  exact List.append_inj' he rfl |>.imp id fun h => List.singleton_inj.1 h

/-- A handled unit was sent from a state in which the units before it had been handled. -/
theorem exists_send (h : Run (Steps Pipeline.step) {} es s)
    (hs : s.handled = p ++ (au, b) :: q) :
    ∃ es₁ es₂ r, es = es₁ ++ .send :: es₂ ∧ Run (Steps Pipeline.step) {} es₁ r ∧
      r.handled = p ∧ r.reader = .sending au ∧
      (b = false ↔ au.keyframe = false ∧ r.queue.length = queueCapacity) := by
  obtain ⟨es₁, e, es₂, r, u, rfl, h₁, hst, -, hrp, hpu⟩ :=
    h.exists_logged (fun _ _ _ hst => Pipeline.handled_prefix hst) (Nat.zero_le _) hs
  have hlen : ¬p ++ [(au, b)] <+: r.handled := by
    intro hpr
    have hl := (hpr.trans hrp).length_le
    rw [List.length_append, List.length_singleton] at hl
    omega
  cases Pipeline.moves hst with
  | keeps hd hp hh hq ht => exact absurd (hh ▸ hpu) hlen
  | demux au hr => exact absurd hpu hlen
  | received hq => exact absurd hpu hlen
  | sent hr hroom =>
    obtain ⟨rfl, he⟩ := append_singleton_prefix hrp hpu
    cases he
    have hne : ¬r.queue.length = queueCapacity := Nat.ne_of_lt hroom
    exact ⟨es₁, es₂, r, rfl, h₁, rfl, hr, by simp [hne]⟩
  | dropped hr hfull hk =>
    obtain ⟨rfl, he⟩ := append_singleton_prefix hrp hpu
    cases he
    have hroom : r.queue.length = queueCapacity := Nat.le_antisymm (Delivered.run h₁).room hfull
    exact ⟨es₁, es₂, r, rfl, h₁, rfl, hr, by simp [hk, hroom]⟩

/-- The step of a reader that sends into a full queue drops the unit. -/
theorem Pipeline.handled_of_full {s : Pipeline} (hr : s.reader = .sending au)
    (hfull : s.queue.length = queueCapacity) (h : s.step .send = some t) :
    t.handled = s.handled ++ [(au, false)] := by
  have hroom : ¬s.queue.length < queueCapacity := Nat.not_lt.2 (Nat.le_of_eq hfull.symm)
  simp only [step, hr, hroom, ↓reduceIte] at h
  split at h
  · cases h
  · cases h
    rfl

theorem MetFull.dropped (hm : MetFull es p au) (h : Run (Steps Pipeline.step) {} es s)
    (hs : s.handled = p ++ (au, b) :: q) : b = false := by
  obtain ⟨es₁, es₂, r, rfl, h₁, rfl, hr, hfull⟩ := hm
  obtain ⟨r', h₁', h₂⟩ := h.split
  cases run_steps_unique h₁ h₁'
  cases h₂ with
  | cons hst hrest =>
    have hpre := hrest.log_prefix fun _ _ _ hst => Pipeline.handled_prefix hst
    rw [Pipeline.handled_of_full hr hfull hst, hs, List.prefix_append_right_inj] at hpre
    cases (List.cons_prefix_cons.1 hpre).1
    rfl

/-- What is demuxed is handled in order, and what of it is put on the queue reaches the session in
order; what is not put there is just the units, no keyframes, that met a full queue. -/
theorem dropped_iff_met_full (es : List PipelineEvent) (s : Pipeline)
    (h : Run (Steps Pipeline.step) {} es s) :
    s.handled.map Prod.fst ++ s.pending = demuxed es ∧
    s.taken ++ s.queue = (s.handled.filter Prod.snd).map Prod.fst ∧
    ∀ p u b q, s.handled = p ++ (u, b) :: q →
      (b = false ↔ u.keyframe = false ∧ MetFull es p u) := by
  have hd := Delivered.run h
  refine ⟨hd.account, hd.delivered, ?_⟩
  intro p u b q hs
  obtain ⟨es₁, es₂, r, rfl, h₁, hh, hr, hb⟩ := exists_send h hs
  constructor
  · intro hfalse
    obtain ⟨hk, hfull⟩ := hb.1 hfalse
    exact ⟨hk, es₁, es₂, r, rfl, h₁, hh, hr, hfull⟩
  · intro hm
    exact hm.2.dropped h hs

/-- A keyframe and three units fill the queue, a fourth unit is dropped; the session takes the
keyframe, and a fifth unit is queued. -/
def brokenChain : List PipelineEvent :=
  [.open, .header, .check, .demux ⟨true, 0, [5]⟩, .send] ++
    (List.replicate 4 [.check, .demux ⟨false, 1, [1]⟩, .send]).flatten ++
    [.recv, .check, .demux ⟨false, 2, [1]⟩, .send]

theorem brokenChain_handled :
    ∃ s, Run (Steps Pipeline.step) {} brokenChain s ∧
      s.handled = (⟨true, 0, [5]⟩, true) :: List.replicate 3 (⟨false, 1, [1]⟩, true) ++
        [(⟨false, 1, [1]⟩, false)] ++ [(⟨false, 2, [1]⟩, true)] := by
  have hrun : (brokenChain.foldlM Pipeline.step {}).map Pipeline.handled =
      some ((⟨true, 0, [5]⟩, true) :: List.replicate 3 (⟨false, 1, [1]⟩, true) ++
        [(⟨false, 1, [1]⟩, false)] ++ [(⟨false, 2, [1]⟩, true)]) := by decide +kernel
  obtain ⟨s, hs, hh⟩ := Option.map_eq_some_iff.1 hrun
  exact ⟨s, run_steps_iff.2 hs, hh⟩

/-- A unit is queued although one between it and the latest keyframe was not. -/
theorem reference_chain_breaks :
    ¬∀ es s, Run (Steps Pipeline.step) {} es s →
      ∀ p au q, s.handled = p ++ (au, true) :: q → au.keyframe = false →
        ∀ p' x q', p = p' ++ x :: q' → (∀ y ∈ x :: q', y.1.keyframe = false) → x.2 = true := by
  intro h
  obtain ⟨s, hs, hh⟩ := brokenChain_handled
  have hx := h brokenChain s hs _ ⟨false, 2, [1]⟩ [] hh rfl _ (⟨false, 1, [1]⟩, false) [] rfl
    (by simp)
  cases hx

theorem dropped_iff_met_full_broken :
    ∃ s, Run (Steps Pipeline.step) {} brokenChain s ∧
      MetFull brokenChain
        ((⟨true, 0, [5]⟩, true) :: List.replicate 3 (⟨false, 1, [1]⟩, true))
        ⟨false, 1, [1]⟩ := by
  obtain ⟨s, hs, hh⟩ := brokenChain_handled
  rw [List.append_assoc] at hh
  exact ⟨s, hs, (((dropped_iff_met_full brokenChain s hs).2.2 _ _ _ _ hh).1 rfl).2⟩

end DdrdeskHost
