import DdrdeskHost.SessionEnds
import DdrdeskHost.SessionOutput
import DdrdeskHost.Sharing

namespace DdrdeskHost
set_option autoImplicit true

/-- The messages that the loop only reads: what it cannot parse, a short `PING`, the hints of a
client, and the types that it does not know. -/
def ignored (S : Serde) (f : Frame) : Bool :=
  if f.1 = Proto.uiScale then (S.uiScale f.2).isNone
  else if f.1 = Proto.input then (S.inputEvent f.2).isNone
  else if f.1 = Proto.ping then decide (f.2.length < 8)
  else decide (f.1 ≠ Proto.viewport ∧ f.1 ≠ Proto.goodbye)

/-- An ignored message is dispatched. -/
def Effect.silent (S : Serde) : Effect → Bool
  | .dispatched f => ignored S f
  | _ => false

/-- All but the bit rate that the client has hinted at. -/
def Phase.plain : Phase → Phase
  | .streaming l => .streaming { l with kbps := 0 }
  | p => p

/-- A session that has come as far as another, and has nothing left to read while it still reads. -/
structure Follows (c c' : Conn) : Prop where
  inFlight : c.fut.InFlight
  phase : c'.phase.plain = c.phase.plain
  fresh : c.phase.closing = false → c'.eof = false ∧ c'.fut = .lenb [] ∧ c'.arrived = []

section
variable {S : Serde} {l : Loop} {p q : Phase}

theorem plain_streaming (h : p.plain = (Phase.streaming l).plain) :
    ∃ kbps, p = .streaming { l with kbps := kbps } := by
  cases p with
  | streaming l' =>
    obtain ⟨vp, enc, injector, pointerScale, kbps, framesSent, queue⟩ := l'
    cases h
    exact ⟨kbps, rfl⟩
  | _ => cases h

theorem plain_other (hp : p.streams = false) (h : q.plain = p.plain) : q = p := by
  cases p with
  | streaming l => cases hp
  | _ =>
    cases q with
    | streaming l => cases h
    | _ => exact h

theorem dispatch_kbps (S : Serde) (l : Loop) (f : Frame) (a : Answer) (kbps : Nat) :
    (dispatch S { l with kbps := kbps } f a).1.plain = (dispatch S l f a).1.plain ∧
      (dispatch S { l with kbps := kbps } f a).2 = (dispatch S l f a).2 := by
  unfold dispatch
  split
  · cases S.uiScale f.2 with
    | none => exact ⟨rfl, rfl⟩
    | some s => exact ⟨rfl, rfl⟩
  · split
    · cases S.viewport f.2 with
      | none => exact ⟨rfl, rfl⟩
      | some vp => exact ⟨rfl, rfl⟩
    · split
      · cases S.inputEvent f.2 with
        | none => exact ⟨rfl, rfl⟩
        | some ev => exact ⟨rfl, rfl⟩
      · split
        · split
          · cases a.write with
            | done => exact ⟨rfl, rfl⟩
            | failed n => exact ⟨rfl, rfl⟩
          · exact ⟨rfl, rfl⟩
        · split
          · exact ⟨rfl, rfl⟩
          · split
            · cases S.bitrateHint f.2 with
              | none => exact ⟨rfl, rfl⟩
              | some h => exact ⟨rfl, rfl⟩
            · split
              · exact ⟨rfl, rfl⟩
              · exact ⟨rfl, rfl⟩

theorem dispatch_ignored (h : ignored S f = true) (l : Loop) (a : Answer) :
    (dispatch S l f a).1.plain = (Phase.streaming l).plain ∧ (dispatch S l f a).2 = [] := by
  have hd := dispatches S l f a
  generalize (dispatch S l f a).1 = p, (dispatch S l f a).2 = es at hd
  cases hd with
  | ignored | bitrateHint => exact ⟨rfl, rfl⟩
  | uiScale hf hs => simp [DdrdeskHost.ignored, hf, hs] at h
  | viewport hf | badViewport hf | goodbye hf =>
    simp [DdrdeskHost.ignored, hf, Proto.viewport, Proto.goodbye, Proto.uiScale, Proto.input,
      Proto.ping] at h
  | input hf hs => simp [DdrdeskHost.ignored, hf, hs, Proto.uiScale, Proto.input] at h
  | pong hf hlen | pongFailed hf hlen =>
    simp [DdrdeskHost.ignored, hf, Proto.uiScale, Proto.input, Proto.ping] at h
    omega

theorem dispatch_not_silent (S : Serde) (l : Loop) (f : Frame) (a : Answer) :
    ∀ x ∈ (dispatch S l f a).2, x.silent S = false := by
  have hd := dispatches S l f a
  generalize (dispatch S l f a).1 = p, (dispatch S l f a).2 = es at hd
  cases hd with
  | uiScale => cases l.injector <;> simp [Effect.silent]
  | _ => simp [Effect.silent]

theorem onVideo_kbps (l : Loop) (au : NalUnit) (a : Answer) (kbps : Nat) :
    (onVideo { l with kbps := kbps } au a).1.plain = (onVideo l au a).1.plain ∧
      (onVideo { l with kbps := kbps } au a).2 = (onVideo l au a).2 := by
  unfold onVideo
  cases a.write with
  | done => exact ⟨rfl, rfl⟩
  | failed n => exact ⟨rfl, rfl⟩

end

section
variable {H : HostState} {S : Serde} {addr : IpAddr} {c c' d : Conn}

theorem arrive_read (hfresh : c.eof = false ∧ c.fut = .lenb [] ∧ c.arrived = []) (hf : f.Fits)
    (hne : c.phase ≠ .returned) (hon : onFrame H S f a c.phase = some (p, es)) :
    Run (Steps (Conn.trace H S addr)) (c, []) [.arrive (writeFrame f.1 f.2), .read a]
      ({ c with phase := p }, es) := by
  obtain ⟨arrived, eof, fut, phase⟩ := c
  obtain ⟨rfl, rfl, rfl⟩ := hfresh
  have harrive : Conn.step H S addr ⟨[], false, .lenb [], phase⟩
      (.arrive (writeFrame f.1 f.2)) = some (⟨writeFrame f.1 f.2, false, .lenb [], phase⟩, []) := by
    rw [Conn.step, if_neg]
    · rfl
    · rintro (h | h)
      · exact hne h
      · cases h
  have hpoll : (ReadFut.lenb []).poll (writeFrame f.1 f.2) = .ready f [] := by
    rw [← List.append_nil (writeFrame f.1 f.2), poll_writeFrame hf]
  have hread : Conn.step H S addr ⟨writeFrame f.1 f.2, false, .lenb [], phase⟩ (.read a) =
      some (⟨[], false, .lenb [], p⟩, es) := Conn.step_ready hpoll hon
  exact .cons (Conn.trace_eq harrive []) (.single (Conn.trace_eq hread []))

theorem eof_read (hfresh : c.eof = false ∧ c.fut = .lenb [] ∧ c.arrived = [])
    (hon : onReadFailed c.phase = some p) (a : Answer) :
    Run (Steps (Conn.trace H S addr)) (c, []) [.eof, .read a]
      ({ c with eof := true, phase := p }, []) := by
  obtain ⟨arrived, eof, fut, phase⟩ := c
  obtain ⟨rfl, rfl, rfl⟩ := hfresh
  have hne : phase ≠ .returned := by
    intro h
    rw [h] at hon
    cases hon
  have heof : Conn.step H S addr ⟨[], false, .lenb [], phase⟩ .eof =
      some (⟨[], true, .lenb [], phase⟩, []) := by
    rw [Conn.step, if_neg hne]
  have hread : Conn.step H S addr ⟨[], true, .lenb [], phase⟩ (.read a) =
      some (⟨[], true, .lenb [], p⟩, []) := by
    have hpoll : (ReadFut.lenb []).poll [] = .pending (.lenb []) := rfl
    simp only [Conn.step, hpoll, ↓reduceIte, hon, Option.map_some]
  exact .cons (Conn.trace_eq heof []) (.single (Conn.trace_eq hread []))

theorem nextPhase_closing (h : nextPhase H S addr a p = some (p', es)) (hp : p'.closing = false) :
    p.closing = false ∧ p.streams = false := by
  have hn := proceeds h
  cases hn with
  | stopped | restored | disconnected | finished => cases hp
  | _ => exact ⟨rfl, rfl⟩

theorem nextPhase_not_silent (h : nextPhase H S addr a p = some (p', es)) :
    ∀ x ∈ es, x.silent S = false := by
  have hn := proceeds h
  cases hn <;> simp [Effect.silent]

theorem filter_not_silent {es : List Effect} (h : ∀ x ∈ es, x.silent S = false) :
    es.filter (fun x => !x.silent S) = es := by
  apply List.filter_eq_self.2
  intro x hx
  rw [h x hx]
  rfl

theorem Follows.phase_other (h : Follows c c') (hp : c.phase.streams = false) :
    c'.phase = c.phase := plain_other hp h.phase

theorem Follows.of_read (h : Follows c c') (hd : d.fut.InFlight) (hc : c.phase.closing = false)
    (hp : p.plain = d.phase.plain) : Follows d { c' with phase := p } :=
  ⟨hd, hp, fun _ => h.fresh hc⟩

/-- The steps in which a session handles no frame, and those in which it handles one that is not
ignored, are taken by the session that follows as well. -/
theorem Follows.step (h : Follows c c') (hs : c.step H S addr e = some (d, es)) :
    ∃ evs d', Run (Steps (Conn.trace H S addr)) (c', []) evs
      (d', es.filter fun x => !x.silent S) ∧ Follows d d' := by
  have hd := Conn.step_inFlight hs h.inFlight
  have stays (hp : d.phase = c.phase) (hes : es = []) : ∃ evs d',
      Run (Steps (Conn.trace H S addr)) (c', []) evs (d', es.filter fun x => !x.silent S) ∧
        Follows d d' := by
    rw [hes]
    exact ⟨[], c', .nil _, hd, hp ▸ h.phase, hp ▸ h.fresh⟩
  have hg := Conn.goes hs
  generalize hdp : d.phase = p at hg
  cases hg with
  | arrived | ended | pending => exact stays hdp rfl
  | @queued l au hp =>
    have hc : c.phase.closing = false := by rw [hp]; rfl
    obtain ⟨kbps, hk⟩ := plain_streaming (hp ▸ h.phase)
    have hlen : l.queue.length < 4 := by
      rw [Conn.step, hp] at hs
      exact (Option.ite_none_right_eq_some.1 hs).1
    have hstep : Conn.step H S addr c' (.enqueue au) = some ({ c' with
        phase := .streaming { l with kbps := kbps, queue := l.queue ++ [au] } }, []) := by
      simp only [Conn.step, hk, hlen, ↓reduceIte]
    exact ⟨_, _, .single (Conn.trace_eq hstep []), h.of_read hd hc (by rw [hdp]; rfl)⟩
  | @hello f rest a hp hf =>
    have hc : c.phase.closing = false := by rw [hp]; rfl
    have hp' := h.phase_other (by rw [hp]; rfl)
    have hspec := poll_spec h.inFlight c.arrived
    rw [hf] at hspec
    have hon : onFrame H S f a c'.phase = some (onHello H S f, []) := by rw [hp', hp]; rfl
    exact ⟨_, _, arrive_read (h.fresh hc) (readFrame_eq_ok hspec).1 (by simp [hp', hp]) hon,
      h.of_read hd hc (by rw [hdp])⟩
  | @frame l f rest a hp hf =>
    have hc : c.phase.closing = false := by rw [hp]; rfl
    obtain ⟨kbps, hk⟩ := plain_streaming (hp ▸ h.phase)
    by_cases hi : ignored S f = true
    · obtain ⟨hsame, hnone⟩ := dispatch_ignored hi l a
      rw [hnone]
      have hsilent : Effect.silent S (.dispatched f) = true := hi
      have hfilter : List.filter (fun x => !x.silent S) [Effect.dispatched f] = [] := by
        rw [List.filter_cons_of_neg (by simp [hsilent]), List.filter_nil]
      rw [hfilter]
      refine ⟨[], c', .nil _, hd, ?_, fun _ => h.fresh hc⟩
      rw [hdp, hsame, ← hp]
      exact h.phase
    · obtain ⟨hphase, hes⟩ := dispatch_kbps S l f a kbps
      have hspec := poll_spec h.inFlight c.arrived
      rw [hf] at hspec
      have hon : onFrame H S f a c'.phase = some ((dispatch S { l with kbps := kbps } f a).1,
          .dispatched f :: (dispatch S { l with kbps := kbps } f a).2) := by rw [hk]; rfl
      have hvisible : ∀ x ∈ Effect.dispatched f :: (dispatch S l f a).2, x.silent S = false := by
        intro x hx
        rcases List.mem_cons.1 hx with rfl | hx
        · exact Bool.eq_false_iff.2 hi
        · exact dispatch_not_silent S l f a x hx
      rw [filter_not_silent hvisible, ← hes]
      exact ⟨_, _, arrive_read (h.fresh hc) (readFrame_eq_ok hspec).1 (by simp [hk]) hon,
        h.of_read hd hc (by rw [hdp, hphase])⟩
  | gone a hp =>
    have hc : c.phase.closing = false := by rw [hp]; rfl
    have hp' := h.phase_other (by rw [hp]; rfl)
    have hon : onReadFailed c'.phase = some .returned := by rw [hp', hp]; rfl
    refine ⟨_, _, eof_read (h.fresh hc) hon a, hd, by rw [hdp], ?_⟩
    rw [hdp]
    intro hopen
    cases hopen
  | @left l a hp hf =>
    have hc : c.phase.closing = false := by rw [hp]; rfl
    obtain ⟨kbps, hk⟩ := plain_streaming (hp ▸ h.phase)
    have hon : onReadFailed c'.phase = some .stopping := by rw [hk]; rfl
    refine ⟨_, _, eof_read (h.fresh hc) hon a, hd, by rw [hdp], ?_⟩
    rw [hdp]
    intro hopen
    cases hopen
  | @video l au queue a hp hq =>
    have hc : c.phase.closing = false := by rw [hp]; rfl
    obtain ⟨kbps, hk⟩ := plain_streaming (hp ▸ h.phase)
    obtain ⟨hphase, hes⟩ := onVideo_kbps { l with queue := queue } au a kbps
    obtain ⟨heof, -, harrived⟩ := h.fresh hc
    have hstep : Conn.step H S addr c' (.recv a) = some ({ c' with
        fut := .lenb [], phase := (onVideo { l with queue := queue, kbps := kbps } au a).1 },
        (onVideo { l with queue := queue, kbps := kbps } au a).2) := by
      simp only [Conn.step, hk, hq]
    have hvisible : ∀ x ∈ (onVideo { l with queue := queue } au a).2, x.silent S = false := by
      unfold onVideo
      cases a.write <;> simp [Effect.silent]
    rw [filter_not_silent hvisible, ← hes]
    exact ⟨_, _, .single (Conn.trace_eq hstep []), hd, by rw [hdp, ← hphase],
      fun _ => ⟨heof, rfl, harrived⟩⟩
  | next a hn =>
    have hstreams : c.phase.streams = false := by
      cases hp : c.phase with
      | streaming l =>
        rw [hp] at hn
        cases hn
      | _ => rfl
    have hp' := h.phase_other hstreams
    rw [filter_not_silent (nextPhase_not_silent hn)]
    rw [← hp'] at hn
    refine ⟨_, _, .single (Conn.trace_eq (Conn.step_next hn) []), hd, by rw [hdp], ?_⟩
    intro hopen
    rw [hdp] at hopen
    rw [hp'] at hn
    exact h.fresh (nextPhase_closing hn hopen).1

end

section
variable {K : Kscreen W} {H : HostState} {S : Serde} {g g' : Shared W}

theorem performs_visible {es : List Effect} (h : es.foldlM (Shared.perform K) g = some g') :
    (es.filter fun x => !x.silent S).foldlM (Shared.perform K) g = some g' := by
  induction es generalizing g with
  | nil => exact h
  | cons x es ih =>
    obtain ⟨g₁, h₁, h⟩ := Option.bind_eq_some_iff.1 (List.foldlM_cons.symm.trans h)
    cases hx : x.silent S with
    | false =>
      rw [List.filter_cons_of_pos (by simp [hx]), List.foldlM_cons, h₁]
      exact ih h
    | true =>
      rw [List.filter_cons_of_neg (by simp [hx])]
      cases x with
      | dispatched f =>
        cases h₁
        exact ih h
      | _ => cases hx

theorem turns_run [DecidableEq ι] {s : (ι → IpAddr × Conn) × Shared W} {t u : Conn × List Effect}
    (h : Run (Steps (Conn.trace H S a)) t evs u) (i : ι) (hi : s.1 i = (a, t.1))
    (hu : u.2 = t.2 ++ es)
    (hg : es.foldlM (Shared.perform K) s.2 = some g') (log : List (ι × Effect)) :
    Run (Steps (hostTrace K H S)) (s, log) (evs.map (.turn i))
      ((Function.update s.1 i (a, u.1), g'), log ++ es.map (Prod.mk i)) := by
  induction h generalizing s es log with
  | nil t =>
    cases List.append_cancel_left ((List.append_nil t.2).trans hu)
    cases hg
    rw [← hi, Function.update_eq_self, List.map_nil, List.map_nil, List.append_nil]
    exact .nil _
  | @cons t e t₁ evs u hst hr ih =>
    obtain ⟨⟨c₁, es₁⟩, hc, rfl⟩ := Option.map_eq_some_iff.1 hst
    obtain ⟨es₂, hes⟩ := hr.log_prefix fun _ _ _ hst => Conn.trace_prefix hst
    rw [List.append_assoc, hu, List.append_cancel_left_eq] at hes
    subst hes
    obtain ⟨g₁, h₁, h₂⟩ := Option.bind_eq_some_iff.1 (List.foldlM_append.symm.trans hg)
    have hc' : (s.1 i).2.step H S (s.1 i).1 e = some (c₁, es₁) := by rw [hi]; exact hc
    have hstep : hostTrace K H S (s, log) (.turn i e) =
        some ((Function.update s.1 i (a, c₁), g₁), log ++ es₁.map (Prod.mk i)) := by
      rw [hostTrace, hostStep_turn hc' h₁, Option.map_some, callsOf_turn hc', hi]
    have hrest := ih (s := (Function.update s.1 i (a, c₁), g₁)) (Function.update_self i _ s.1)
      (by rw [hu, List.append_assoc]) h₂ (log ++ es₁.map (Prod.mk i))
    rw [Function.update_idem, List.append_assoc, ← List.map_append] at hrest
    exact .cons hstep hrest

/-- The calls without the dispatch of ignored messages, the same shared state, and every session
followed by its own. -/
structure Alike (S : Serde) (t t' : ((ι → IpAddr × Conn) × Shared W) × List (ι × Effect)) :
    Prop where
  calls : t'.2 = t.2.filter fun x => !x.2.silent S
  shared : t'.1.2 = t.1.2
  session : ∀ i, (t'.1.1 i).1 = (t.1.1 i).1 ∧ Follows (t.1.1 i).2 (t'.1.1 i).2

/-- The host takes the steps that keep a run without ignored messages alike. -/
theorem Alike.step [DecidableEq ι]
    {t t' u : ((ι → IpAddr × Conn) × Shared W) × List (ι × Effect)} (ht : Alike S t t')
    (h : hostTrace K H S t e = some u) :
    ∃ evs u', Run (Steps (hostTrace K H S)) t' evs u' ∧ Alike S u u' := by
  obtain ⟨s, hs, rfl⟩ := Option.map_eq_some_iff.1 h
  obtain ⟨⟨c', g'⟩, log'⟩ := t'
  obtain ⟨rfl, rfl, hsession⟩ := ht
  cases e with
  | world w =>
    cases hs
    exact ⟨[.world w], _, .single rfl, by simp [callsOf], rfl, hsession⟩
  | turn i e =>
    obtain ⟨c, es, g, hc, hg, rfl⟩ := hostStep_turn_cases hs
    obtain ⟨haddr, hfollows⟩ := hsession i
    obtain ⟨evs, d, hrun, hnext⟩ := hfollows.step hc
    rw [← haddr] at hrun
    have hturns := turns_run (s := (c', t.1.2)) hrun i rfl rfl (performs_visible hg)
      (t.2.filter fun x => !x.2.silent S)
    refine ⟨_, _, hturns, ?_, rfl, ?_⟩
    · simp only [callsOf_turn hc, List.filter_append, List.filter_map, Function.comp_def]
    · intro j
      by_cases hj : j = i
      · subst hj
        simpa only [Function.update_self] using ⟨haddr, hnext⟩
      · simpa only [Function.update_of_ne hj] using hsession j

end

/-- Whatever messages the sessions ignore, there is a run without these messages in which they make
the same calls and come as far, and all that they share is the same. -/
theorem ignored_messages_invisible {ι : Type*} [DecidableEq ι] (K : Kscreen W) (H : HostState)
    (S : Serde) (addr : ι → IpAddr) (d : Display W) (es : List (HostEvent ι W))
    (s : (ι → IpAddr × Conn) × Shared W) (log : List (ι × Effect))
    (h : Run (Steps (hostTrace K H S)) (hostStart addr d, []) es (s, log)) :
    ∃ es' s', Run (Steps (hostTrace K H S)) (hostStart addr d, []) es'
        (s', log.filter fun x => !x.2.silent S) ∧
      s'.2 = s.2 ∧ ∀ i, (s'.1 i).2.phase.plain = (s.1 i).2.phase.plain := by
  have hrun : ∃ es' u, Run (Steps (hostTrace K H S)) (hostStart addr d, []) es' u ∧
      Alike S (s, log) u := by
    apply h.invariant (I := fun t => ∃ es' u,
      Run (Steps (hostTrace K H S)) (hostStart addr d, []) es' u ∧ Alike S t u)
    · rintro t e u ⟨es', t', hr, ht⟩ hst
      obtain ⟨evs, u', hr', hu⟩ := ht.step hst
      exact ⟨es' ++ evs, u', hr.append hr', hu⟩
    · refine ⟨[], _, .nil _, rfl, rfl, ?_⟩
      intro i
      exact ⟨rfl, Nat.succ_pos _, rfl, fun _ => ⟨rfl, rfl, rfl⟩⟩
  obtain ⟨es', ⟨s', log'⟩, hr, rfl, hshared, hsession⟩ := hrun
  exact ⟨es', s', hr, hshared, fun i => (hsession i).2.phase⟩

/-- A JSON library that reads a bit rate. -/
def hintSerde : Serde := { sampleSerde with bitrateHint := fun _ => some ⟨6000⟩ }

/-- A client that joins and hints at a bit rate. -/
def hinting : List (HostEvent Unit Panel) :=
  (connected ++ [Event.arrive (writeFrame Proto.bitrateHint []), .read {}]).map (.turn ())

theorem ignored_messages_invisible_hint :
    ∃ es s s' log log', Run (Steps (hostTrace Panel.kscreen sampleHost hintSerde))
        (hostStart (fun _ => .v4 0) { world := (false, 1, 0) }, []) hinting (s, log) ∧
      ((), Effect.dispatched (Proto.bitrateHint, [])) ∈ log ∧
      Run (Steps (hostTrace Panel.kscreen sampleHost hintSerde))
        (hostStart (fun _ => .v4 0) { world := (false, 1, 0) }, []) es (s', log') ∧
      ((), Effect.dispatched (Proto.bitrateHint, [])) ∉ log' ∧ s'.2 = s.2 := by
  have hrun : (hinting.foldlM (hostTrace Panel.kscreen sampleHost hintSerde)
      (hostStart (fun _ => .v4 0) { world := (false, 1, 0) }, [])).map
        (fun t => decide (((), Effect.dispatched (Proto.bitrateHint, [])) ∈ t.2)) =
      some true := by decide +kernel
  obtain ⟨⟨s, log⟩, hs, hmem⟩ := Option.map_eq_some_iff.1 hrun
  have h := run_steps_iff.2 hs
  obtain ⟨es, s', h', hshared, -⟩ := ignored_messages_invisible _ _ _ _ _ _ s log h
  refine ⟨es, s, s', log, _, h, of_decide_eq_true hmem, h', ?_, hshared⟩
  intro hin
  exact absurd (List.mem_filter.1 hin).2 (by decide)

end DdrdeskHost
