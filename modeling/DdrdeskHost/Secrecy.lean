import DdrdeskHost.FirstFrame

namespace DdrdeskHost
set_option autoImplicit true

/-- A call without what is said in the frame that it writes. -/
def Effect.shape : Effect → Effect
  | .wrote typ _ w => .wrote typ [] w
  | x => x

section
variable {H₁ H₂ : HostState} {S : Serde} {addr : IpAddr} {c c' : Conn}
  {es es' : List Effect}

theorem perform_shape (K : Kscreen W) (g : Shared W) (x : Effect) :
    g.perform K x.shape = g.perform K x := by
  cases x <;> rfl

theorem performs_shape (K : Kscreen W) (h : es'.map Effect.shape = es.map Effect.shape)
    (g : Shared W) : es'.foldlM (Shared.perform K) g = es.foldlM (Shared.perform K) g := by
  have hshape (es : List Effect) : (es.map Effect.shape).foldlM (Shared.perform K) g =
      es.foldlM (Shared.perform K) g := by
    rw [List.foldlM_map]
    simp only [perform_shape]
  rw [← hshape es', h, hshape es]

theorem onHello_congr (h : Admits H₁ S f ↔ Admits H₂ S f) : onHello H₁ S f = onHello H₂ S f := by
  unfold onHello
  split
  · rfl
  · next hf =>
    split
    · rfl
    · next hello hs =>
      have hid : hello.id = H₁.id ↔ hello.id = H₂.id := by
        constructor
        · intro hid
          obtain ⟨-, hello', hs', hid'⟩ := h.1 ⟨Decidable.not_not.1 hf, hello, hs, hid⟩
          cases hs.symm.trans hs'
          exact hid'
        · intro hid
          obtain ⟨-, hello', hs', hid'⟩ := h.2 ⟨Decidable.not_not.1 hf, hello, hs, hid⟩
          cases hs.symm.trans hs'
          exact hid'
      simp only [hid]

theorem nextPhase_shape (H₂ : HostState) (h : nextPhase H₁ S addr a p = some (p', es)) :
    ∃ es', nextPhase H₂ S addr a p = some (p', es') ∧ es'.map Effect.shape = es.map Effect.shape ∧
      (p.early = true → es' = es) := by
  cases p with
  | sized vp enc =>
    simp only [nextPhase] at h ⊢
    cases hw : a.write with
    | done =>
      simp only [hw] at h
      cases h
      exact ⟨_, rfl, rfl, by simp [Phase.early]⟩
    | failed n =>
      simp only [hw] at h
      cases h
      exact ⟨_, rfl, rfl, by simp [Phase.early]⟩
  | greeted vp enc =>
    simp only [nextPhase] at h ⊢
    cases hw : a.write with
    | done =>
      simp only [hw] at h
      cases h
      exact ⟨_, rfl, rfl, by simp [Phase.early]⟩
    | failed n =>
      simp only [hw] at h
      cases h
      exact ⟨_, rfl, rfl, by simp [Phase.early]⟩
  | _ => exact ⟨es, h, rfl, fun _ => rfl⟩

theorem onFrame_congr (h : p = .hello → onHello H₁ S f = onHello H₂ S f) (a : Answer) :
    onFrame H₁ S f a p = onFrame H₂ S f a p := by
  cases p with
  | hello => simp only [onFrame, h rfl]
  | _ => rfl

theorem Conn.step_shape (h : c.step H₁ S addr e = some (c', es))
    (hf : ∀ f rest, c.phase = .hello → c.fut.poll c.arrived = .ready f rest →
      (Admits H₁ S f ↔ Admits H₂ S f)) :
    ∃ es', c.step H₂ S addr e = some (c', es') ∧ es'.map Effect.shape = es.map Effect.shape ∧
      (c.phase.early = true → es' = es) := by
  cases e with
  | arrive | eof | enqueue | recv => exact ⟨es, h, rfl, fun _ => rfl⟩
  | read a =>
    refine ⟨es, ?_, rfl, fun _ => rfl⟩
    rw [← h]
    simp only [Conn.step]
    cases hp : c.fut.poll c.arrived with
    | ready f rest =>
      simp only
      rw [onFrame_congr fun hq => onHello_congr (hf f rest hq hp)]
    | failed | pending => rfl
  | next a =>
    obtain ⟨⟨p, es₀⟩, hn, he⟩ := Option.map_eq_some_iff.1 h
    cases he
    obtain ⟨es', hn', hshape, hearly⟩ := nextPhase_shape H₂ hn
    exact ⟨es', Conn.step_next hn', hshape, hearly⟩

/-- Whether the first frame of some bytes admits a client is settled as soon as it is there. -/
theorem admits_iff_authentic (h : readFrame sent = .ok (f, rest)) (x : List UInt8) :
    Admits H S f ↔ Authentic H S (sent ++ x) := by
  constructor
  · intro ha
    exact Authentic.append ⟨f, rest, h, ha⟩ x
  · rintro ⟨f', rest', h', ha⟩
    cases (readFrame_append h x).symm.trans h'
    exact ha

/-- Both hosts treat the client of these bytes alike. -/
def TreatAlike (H₁ H₂ : HostState) (S : Serde) (sent : List UInt8) : Prop :=
  Authentic H₁ S sent ↔ Authentic H₂ S sent

theorem TreatAlike.cut (h : TreatAlike H₁ H₂ S (sent ++ x)) : TreatAlike H₁ H₂ S sent := by
  constructor
  · rintro ⟨f, rest, hr, ha⟩
    exact ⟨f, rest, hr, (admits_iff_authentic hr x).2 (h.1 ((admits_iff_authentic hr x).1 ha))⟩
  · rintro ⟨f, rest, hr, ha⟩
    exact ⟨f, rest, hr, (admits_iff_authentic hr x).2 (h.2 ((admits_iff_authentic hr x).1 ha))⟩

theorem Early.step_shape (he : Early H₁ S addr sent (c, log))
    (hsame : TreatAlike H₁ H₂ S (sent ++ e.bytes)) (h : c.step H₁ S addr e = some (c', es)) :
    ∃ es', c.step H₂ S addr e = some (c', es') ∧ es'.map Effect.shape = es.map Effect.shape ∧
      (¬Authentic H₁ S sent → es' = es) := by
  have hf (f : Frame) (rest : List UInt8) (hp : c.phase = .hello)
      (hpoll : c.fut.poll c.arrived = .ready f rest) : Admits H₁ S f ↔ Admits H₂ S f := by
    simp only [Early, hp] at he
    obtain ⟨hfl, rfl, -⟩ := he
    have hread := poll_spec hfl c.arrived
    rw [hpoll] at hread
    rw [admits_iff_authentic (H := H₁) hread e.bytes, admits_iff_authentic (H := H₂) hread e.bytes]
    exact hsame
  obtain ⟨es', h', hshape, hearly⟩ := Conn.step_shape h hf
  refine ⟨es', h', hshape, ?_⟩
  intro hn
  apply hearly
  have hrun := (Conn.goes h).running
  unfold Early at he
  generalize c.phase = p at he hrun
  cases p with
  | hello | rejected | refusing => rfl
  | returned => exact absurd rfl hrun
  | _ => exact absurd he hn

/-- A session in the other host makes the same calls; they differ in what its frames say, and only
if it was admitted. -/
theorem trace_shape (h : Run (Steps (Conn.trace H₁ S addr)) ({}, []) evs t)
    (hsame : TreatAlike H₁ H₂ S (delivered evs)) :
    ∃ log, Run (Steps (Conn.trace H₂ S addr)) ({}, []) evs (t.1, log) ∧
      log.map Effect.shape = t.2.map Effect.shape ∧
      (¬Authentic H₁ S (delivered evs) → log = t.2) := by
  have hearly := Early.run h
  revert hsame
  have hinv := h.invariant_trace (p := [])
    (I := fun p t => Early H₁ S addr (delivered p) t ∧ (TreatAlike H₁ H₂ S (delivered p) →
      ∃ log, Run (Steps (Conn.trace H₂ S addr)) ({}, []) p (t.1, log) ∧
        log.map Effect.shape = t.2.map Effect.shape ∧
        (¬Authentic H₁ S (delivered p) → log = t.2))) ?_ ?_
  · exact hinv.2
  · rintro p ⟨c, log₁⟩ e t ⟨he, ih⟩ hst
    have hnext := he.step hst
    rw [delivered_append, delivered_singleton]
    refine ⟨hnext, ?_⟩
    intro hsame
    obtain ⟨⟨c', es⟩, hstep, ht⟩ := Option.map_eq_some_iff.1 hst
    cases ht
    obtain ⟨log, hrun, hlog, hout⟩ := ih hsame.cut
    obtain ⟨es', hstep', hshape, hquiet⟩ := he.step_shape hsame hstep
    refine ⟨log ++ es', hrun.append (.single (Conn.trace_eq hstep' log)), ?_, ?_⟩
    · rw [List.map_append, List.map_append, hlog, hshape]
    · intro hn
      have hn' : ¬Authentic H₁ S (delivered p) := fun ha => hn (ha.append _)
      rw [hout hn', hquiet hn']
  · exact ⟨⟨Nat.succ_pos _, rfl, rfl⟩, fun _ => ⟨[], .nil _, rfl, fun _ => rfl⟩⟩

theorem hostStep_shape [DecidableEq ι] {K : Kscreen W} {s t : (ι → IpAddr × Conn) × Shared W}
    (he : Early H₁ S (s.1 i).1 sent ((s.1 i).2, log))
    (hsame : TreatAlike H₁ H₂ S (sent ++ e.bytes))
    (h : hostStep K H₁ S s (.turn i e) = some t) : hostStep K H₂ S s (.turn i e) = some t := by
  obtain ⟨c, es, g, hc, hg, rfl⟩ := hostStep_turn_cases h
  obtain ⟨es', hc', hshape, -⟩ := he.step_shape hsame hc
  apply hostStep_turn hc'
  rw [performs_shape K hshape]
  exact hg

end

/-- Sessions tell what the host is called, its ID, endpoints and fingerprint to admitted clients
only: two hosts that admit the same clients go through the same states, and to a client that is not
admitted they say the same. -/
theorem secrets_hidden [DecidableEq ι] (K : Kscreen W) (H₁ H₂ : HostState) (S : Serde)
    (addr : ι → IpAddr) (d : Display W) (es : List (HostEvent ι W))
    (s : (ι → IpAddr × Conn) × Shared W)
    (hsame : ∀ i, Authentic H₁ S (delivered (eventsOf i es)) ↔
      Authentic H₂ S (delivered (eventsOf i es)))
    (h : Run (Steps (hostStep K H₁ S)) (hostStart addr d) es s) :
    Run (Steps (hostStep K H₂ S)) (hostStart addr d) es s ∧
    ∀ i log, Run (Steps (Conn.trace H₁ S (addr i))) ({}, []) (eventsOf i es) ((s.1 i).2, log) →
      ∃ log', Run (Steps (Conn.trace H₂ S (addr i))) ({}, []) (eventsOf i es) ((s.1 i).2, log') ∧
        log'.map Effect.shape = log.map Effect.shape ∧
        (¬Authentic H₁ S (delivered (eventsOf i es)) → log' = log) := by
  refine ⟨?_, fun i log hi => trace_shape hi (hsame i)⟩
  revert hsame
  have hinv := h.invariant_trace (p := [])
    (I := fun p s => Run (Steps (hostStep K H₁ S)) (hostStart addr d) p s ∧
      ((∀ i, TreatAlike H₁ H₂ S (delivered (eventsOf i p))) →
        Run (Steps (hostStep K H₂ S)) (hostStart addr d) p s)) ?_ ⟨.nil _, fun _ => .nil _⟩
  · exact hinv.2
  · rintro p s e t ⟨hrun, ih⟩ hst
    refine ⟨hrun.append (.single hst), ?_⟩
    intro hsame
    have hcut : ∀ i, TreatAlike H₁ H₂ S (delivered (eventsOf i p)) := by
      intro i
      have hi := hsame i
      rw [eventsOf_append, delivered_append] at hi
      exact hi.cut
    refine (ih hcut).append (.single ?_)
    cases e with
    | world w => exact hst
    | turn i e =>
      obtain ⟨haddr, log, hi⟩ := session_runs_alone hrun i
      have he := Early.run hi
      rw [← haddr] at he
      have hone : eventsOf i [HostEvent.turn (W := W) i e] = [e] := by simp [eventsOf]
      have hi := hsame i
      rw [eventsOf_append, delivered_append, hone, delivered_singleton] at hi
      exact hostStep_shape he hi hst

/-- A host with nothing in common with the other. -/
def otherHost : HostState :=
  { id := "111111111", hostname := "other", endpoints := ["10.0.0.9:44789"],
    fingerprint := "sha256:11" }

theorem secrets_hidden_wrong_id :
    ∃ s, (s.1 ()).2.phase = .returned ∧
      Run (Steps (hostStep Panel.kscreen otherHost sampleSerde))
        (hostStart (fun _ => .v4 0) { world := (false, 1, 0) }) wrongId s ∧
      ∀ log, Run (Steps (Conn.trace sampleHost sampleSerde (.v4 0))) ({}, []) (eventsOf () wrongId)
          ((s.1 ()).2, log) →
        ∃ log', Run (Steps (Conn.trace otherHost sampleSerde (.v4 0))) ({}, [])
          (eventsOf () wrongId) ((s.1 ()).2, log') ∧ log' = log := by
  have hrun : (wrongId.foldlM (hostStep Panel.kscreen sampleHost sampleSerde)
      (hostStart (fun _ => .v4 0) { world := (false, 1, 0) })).map (fun s => (s.1 ()).2.phase) =
        some .returned := by decide +kernel
  obtain ⟨s, hs, hp⟩ := Option.map_eq_some_iff.1 hrun
  have hsent : readFrame (delivered (eventsOf () wrongId)) = .ok ((Proto.clientHello, [2]), []) :=
    by decide +kernel
  have hnot (H : HostState) (hid : "000000000" ≠ H.id) :
      ¬Authentic H sampleSerde (delivered (eventsOf () wrongId)) := by
    refine Refused.not_authentic ⟨_, _, hsent, ?_⟩
    rintro ⟨-, hello, hs, hello_id⟩
    cases hs
    exact hid hello_id
  have hone := hnot sampleHost (by decide)
  have htwo := hnot otherHost (by decide)
  obtain ⟨hother, hlogs⟩ := secrets_hidden Panel.kscreen sampleHost otherHost sampleSerde
    (fun _ => .v4 0) _ wrongId s (fun _ => iff_of_false hone htwo) (run_steps_iff.2 hs)
  refine ⟨s, hp, hother, ?_⟩
  intro log hlog
  obtain ⟨log', hlog', -, hsame⟩ := hlogs () log hlog
  exact ⟨log', hlog', hsame hone⟩

end DdrdeskHost
