import DdrdeskHost.SessionEnds

namespace DdrdeskHost
set_option autoImplicit true

/-- The limiter is asked, or the client is told that it is refused. -/
def Effect.refuses : Effect → Bool
  | .allow .. => true
  | .wrote typ _ _ => typ = Proto.authFail
  | _ => false

/-- The steps from the first frame to the loop. -/
def Phase.toLoop : Phase → Nat
  | .hello => 6
  | .authenticated _ => 5
  | .sized .. => 4
  | .greeted .. => 3
  | .announced .. => 2
  | .connected .. => 1
  | _ => 0

section
variable {H : HostState} {S : Serde} {addr : IpAddr} {c c' : Conn} {es : List Effect}

theorem Dispatches.unrefused (h : Dispatches S l f a p es) : ∀ x ∈ es, x.refuses = false := by
  cases h with
  | uiScale => cases l.injector <;> simp [Effect.refuses]
  | _ => simp [Effect.refuses, Proto.pong, Proto.authFail]

theorem Proceeds.unrefused (h : Proceeds H S addr a p p' es) (hr : p ≠ .rejected)
    (hf : ∀ error, p ≠ .refusing error) : ∀ x ∈ es, x.refuses = false := by
  cases h with
  | limited => exact absurd rfl hr
  | refused => exact absurd rfl (hf _)
  | _ => simp [Effect.refuses, Proto.serverHello, Proto.status, Proto.authFail]

theorem Conn.Goes.unrefused (hg : c.Goes H S addr e p es) (hr : c.phase ≠ .rejected)
    (hf : ∀ error, c.phase ≠ .refusing error) : ∀ x ∈ es, x.refuses = false := by
  cases hg with
  | arrived | ended | pending | queued | hello | gone | left => simp
  | @frame l f _ a =>
    have hd := (dispatches S l f a).unrefused
    exact List.forall_mem_cons.2 ⟨rfl, hd⟩
  | @video l au queue a =>
    rw [onVideo]
    split <;> simp [Effect.refuses, Proto.video, Proto.authFail]
  | next a hn => exact (proceeds hn).unrefused hr hf

theorem refused_of_refuses (h : Run (Steps (Conn.trace H S addr)) ({}, []) evs t) :
    (∀ x ∈ t.2, x.refuses = false) ∨ Refused H S (delivered evs) := by
  apply And.right (a := Early H S addr (delivered evs) t)
  apply h.invariant_trace (p := []) (I := fun p t => Early H S addr (delivered p) t ∧
    ((∀ x ∈ t.2, x.refuses = false) ∨ Refused H S (delivered p)))
  · rintro p t e u ⟨he, hlog⟩ hst
    rw [delivered_append, delivered_singleton]
    refine ⟨he.step hst, ?_⟩
    obtain ⟨⟨c', es⟩, hstep, rfl⟩ := Option.map_eq_some_iff.1 hst
    have hg := Conn.goes hstep
    rcases hlog with hlog | href
    · by_cases href : Refused H S (delivered p)
      · exact .inr (href.append _)
      · have hr : t.1.phase ≠ .rejected := by
          intro hp
          simp only [Early, hp] at he
          exact href he.1
        have hf : ∀ error, t.1.phase ≠ .refusing error := by
          intro error hp
          simp only [Early, hp] at he
          exact href he.1
        exact .inl (List.forall_mem_append.2 ⟨hlog, hg.unrefused hr hf⟩)
    · exact .inr (href.append _)
  · exact ⟨⟨Nat.succ_pos _, rfl, rfl⟩, .inl (by simp)⟩

theorem Conn.read_authentic (hfl : c.fut.InFlight) (ha : Authentic H S c.unread)
    (hp : c.phase = .hello) (h : c.step H S addr (.read a) = some (c', es)) :
    ∃ vp, c'.phase = .authenticated vp := by
  have hspec := poll_spec hfl c.arrived
  obtain ⟨f, rest, hread, hadm⟩ := ha
  simp only [Conn.step] at h
  split at h
  · next f' rest' hpoll =>
    rw [hpoll] at hspec
    cases hread.symm.trans hspec
    obtain ⟨vp, hvp⟩ := onHello_of_admits hadm
    rw [hp] at h
    simp only [onFrame, hvp, Option.map_some] at h
    cases h
    exact ⟨vp, rfl⟩
  · next e hpoll =>
    rw [hpoll] at hspec
    cases hread.symm.trans hspec
  · next fut hpoll =>
    rw [hpoll] at hspec
    obtain ⟨hfl', hbytes⟩ := hspec
    have hshort := hfl'.readFrame
    rw [hbytes] at hshort
    rcases hshort with hshort | hshort
    · cases hread.symm.trans hshort
    · cases hread.symm.trans hshort

theorem Proceeds.toLoop (h : Proceeds H S addr a p p' es) (hp : 0 < p.toLoop)
    (hw : a.write = .done) (hc : a.capture = true) :
    (∃ l, p' = .streaming l) ∨ 0 < p'.toLoop ∧ p'.toLoop + 1 ≤ p.toLoop := by
  cases h with
  | streaming => exact .inl ⟨_, rfl⟩
  | sized | greeted | announced | connected => exact .inr ⟨Nat.succ_pos _, Nat.le_refl _⟩
  | notGreeted hn | notAnnounced hn => cases hw.symm.trans hn
  | notStreaming hn => cases hc.symm.trans hn
  | limited | refused | stopped | restored | disconnected | finished => cases hp

theorem Early.toLoop (he : Early H S addr sent (c, log)) (ha : Authentic H S sent)
    (hp : 0 < c.phase.toLoop) (h : c.step H S addr e = some (c', es)) (hs : e.served = true) :
    (∃ l, c'.phase = .streaming l) ∨
      0 < c'.phase.toLoop ∧ c'.phase.toLoop + (if e.advances then 1 else 0) ≤ c.phase.toLoop := by
  have hg := Conn.goes h
  cases e with
  | arrive chunk | eof =>
    generalize c'.phase = p at hg
    cases hg
    exact .inr ⟨hp, Nat.le_refl _⟩
  | enqueue au =>
    generalize c'.phase = p at hg
    cases hg
    exact .inl ⟨_, rfl⟩
  | read a =>
    rcases Conn.read_phase h with hq | ⟨l, hq⟩
    · simp only [Early, hq] at he
      obtain ⟨hfl, rfl, -⟩ := he
      obtain ⟨vp, hvp⟩ := Conn.read_authentic hfl ha hq h
      rw [hvp, hq]
      exact .inr ⟨Nat.succ_pos _, Nat.le_refl _⟩
    · rw [hq] at hp
      cases hp
  | recv a =>
    generalize c'.phase = p at hg
    cases hg with
    | video a hq =>
      rw [hq] at hp
      cases hp
  | next a =>
    generalize c'.phase = p at hg
    cases hg with
    | next a hn =>
      obtain ⟨hw, hc⟩ : a.write = .done ∧ a.capture = true := by
        simpa [Event.served] using hs
      exact (proceeds hn).toLoop hp hw hc

end

/-- What the session writes gets through, and its recorder starts. -/
def HostEvent.served [DecidableEq ι] (i : ι) : HostEvent ι W → Bool
  | .turn j e => j ≠ i || e.served
  | .world _ => true

theorem Phase.toLoop_le (p : Phase) : p.toLoop ≤ 6 := by
  cases p <;> simp [Phase.toLoop]

section
variable {ι : Type*} [DecidableEq ι] {K : Kscreen W} {H : HostState} {S : Serde}
  {addr : ι → IpAddr} {d : Display W} {es : List (HostEvent ι W)}
  {t u : ((ι → IpAddr × Conn) × Shared W) × List (ι × Effect)}

/-- The first frame of the session has the host's ID, and the session is on the way to the loop. -/
def Admitted (K : Kscreen W) (H : HostState) (S : Serde) (addr : ι → IpAddr) (d : Display W) (i : ι)
    (t : ((ι → IpAddr × Conn) × Shared W) × List (ι × Effect)) : Prop :=
  (∃ es, Run (Steps (hostTrace K H S)) (hostStart addr d, []) es t ∧
    Authentic H S (delivered (eventsOf i es))) ∧ 0 < (t.1.1 i).2.phase.toLoop

/-- An admitted session comes nearer to the loop with its own steps, and no other one takes it
back. -/
theorem Admitted.step (h : Admitted K H S addr d i t) (hst : hostTrace K H S t e = some u)
    (hs : e.served i = true) : (∃ l, (u.1.1 i).2.phase = .streaming l) ∨
      Admitted K H S addr d i u ∧
        (u.1.1 i).2.phase.toLoop + (if e.advances i then 1 else 0) ≤
          (t.1.1 i).2.phase.toLoop := by
  obtain ⟨⟨es, hr, ha⟩, hp⟩ := h
  have hnext (hpos : 0 < (u.1.1 i).2.phase.toLoop) : Admitted K H S addr d i u := by
    refine ⟨⟨es ++ [e], hr.append (.single hst), ?_⟩, hpos⟩
    rw [eventsOf_append, delivered_append]
    exact ha.append _
  obtain ⟨s, hstep, hu⟩ := Option.map_eq_some_iff.1 hst
  have hs' : u.1 = s := by rw [← hu]
  rw [← hs'] at hstep
  rcases hostStep_session hstep i with ⟨ht, he⟩ | ⟨x, es', rfl, hc⟩
  · rw [ht] at hnext ⊢
    rw [he]
    exact .inr ⟨hnext hp, Nat.le_refl _⟩
  · obtain ⟨haddr, hsession⟩ := session_calls hr i
    rw [haddr] at hc
    have hone : HostEvent.advances (W := W) i (.turn i x) = x.advances := by
      simp [HostEvent.advances]
    have hx : x.served = true := by simpa [HostEvent.served] using hs
    rw [hone]
    rcases (Early.run hsession).toLoop ha hp hc hx with hl | ⟨hpos, hle⟩
    · exact .inl hl
    · exact .inr ⟨hnext hpos, hle⟩

theorem hostTrace_enabled (K : Kscreen W) (H : HostState) (S : Serde)
    (hp : 0 < (t.1.1 i).2.phase.toLoop) : ∃ e u, e.advances = true ∧ e.served = true ∧
      hostTrace K H S t (.turn i e) = some u := by
  have hne : (t.1.1 i).2.phase ≠ .returned := by
    intro hq
    rw [hq] at hp
    cases hp
  have hstop : (t.1.1 i).2.phase ≠ .stopping := by
    intro hq
    rw [hq] at hp
    cases hp
  have heof : ∀ l, (t.1.1 i).2.phase = .streaming l → (t.1.1 i).2.eof = true := by
    intro l hq
    rw [hq] at hp
    cases hp
  obtain ⟨e, c', es, g', he, hs, hc, hg⟩ : ∃ e c' es g', Event.advances e = true ∧
      e.served = true ∧ (t.1.1 i).2.step H S (t.1.1 i).1 e = some (c', es) ∧
      es.foldlM (Shared.perform K) t.1.2 = some g' := Conn.enabled K t.1.2 heof hstop hne
  obtain ⟨u, hu⟩ : ∃ u, hostTrace K H S t (.turn i e) = some u := by
    rw [hostTrace, hostStep_turn hc hg]
    exact ⟨_, rfl⟩
  exact ⟨e, u, he, hs, hu⟩

end

/-- A session refuses its client because of the first frame alone. With the host's ID in that frame
it comes to the loop in six of its steps while its writes get through and the recorder starts, and
it can always take the next one, whatever other clients have done or do, and wherever the limiter
stands. -/
theorem right_id_admitted {ι : Type*} [DecidableEq ι] (K : Kscreen W) (H : HostState)
    (S : Serde) (addr : ι → IpAddr) (d : Display W) (es es' : List (HostEvent ι W))
    (t u : ((ι → IpAddr × Conn) × Shared W) × List (ι × Effect)) (i : ι)
    (hr : Run (Steps (hostTrace K H S)) (hostStart addr d, []) es t)
    (h : Run (Guard (fun _ e => e.served i = true) (Steps (hostTrace K H S))) t es' u) :
    ((∃ x ∈ callsBy i u.2, x.refuses = true) →
      Refused H S (delivered (eventsOf i (es ++ es')))) ∧
    (0 < (t.1.1 i).2.phase.toLoop → Authentic H S (delivered (eventsOf i es)) →
      (∃ p q v l, es' = p ++ q ∧ Run (Steps (hostTrace K H S)) t p v ∧
        (v.1.1 i).2.phase = .streaming l) ∨
      es'.countP (HostEvent.advances i) < 6 ∧ ∃ e v, e.advances = true ∧ e.served = true ∧
        hostTrace K H S u (.turn i e) = some v) := by
  constructor
  · rintro ⟨x, hx, hrefuses⟩
    rcases refused_of_refuses (session_calls (hr.append h.of_guard) i).2 with hlog | href
    · rw [hlog x hx] at hrefuses
      cases hrefuses
    · exact href
  · intro hp ha
    have hreaches := h.reaches (I := Admitted K H S addr d i)
      (Q := fun s => ∃ l, (s.1.1 i).2.phase = .streaming l)
      (μ := fun s => (s.1.1 i).2.phase.toLoop) (p := HostEvent.advances i)
      (fun _ _ _ hs hst => hs.step hst.2 hst.1) ⟨⟨es, hr, ha⟩, hp⟩
    rcases hreaches with ⟨p, q, v, rfl, hv, l, hl⟩ | ⟨⟨-, hu⟩, hle⟩
    · exact .inl ⟨p, q, v, l, rfl, hv.of_guard, hl⟩
    · have hsix := (t.1.1 i).2.phase.toLoop_le
      exact .inr ⟨by omega, hostTrace_enabled K H S hu⟩

/-- Nine wrong guesses from one address, and a client at the same address with the host's ID. -/
def lockedOut : List (HostEvent (Option (Fin 9)) Panel) :=
  ((List.finRange 9).flatMap fun i : Fin 9 =>
    [Event.arrive (writeFrame Proto.clientHello [2]), .read {}, .next { allowed := i.val ≠ 8 }].map
      (.turn (some i))) ++ [.turn none (.arrive (writeFrame Proto.clientHello [1]))]

def rightId : List (HostEvent (Option (Fin 9)) Panel) :=
  [Event.read {}, .next {}, .next {}, .next {}, .next {}, .next {}].map (.turn none)

theorem right_id_admitted_locked_out :
    ∃ t u, Run (Steps (hostTrace Panel.kscreen sampleHost sampleSerde))
        (hostStart (fun _ => .v4 0) { world := (false, 1, 0) }, []) lockedOut t ∧
      (t.1.2.rate.allow (.v4 0) 0).2 = false ∧
      Run (Steps (hostTrace Panel.kscreen sampleHost sampleSerde)) t rightId u ∧
      ∃ p q v l, rightId = p ++ q ∧
        Run (Steps (hostTrace Panel.kscreen sampleHost sampleSerde)) t p v ∧
        (v.1.1 none).2.phase = .streaming l := by
  have hrun : (lockedOut.foldlM (hostTrace Panel.kscreen sampleHost sampleSerde)
      (hostStart (fun _ => .v4 0) { world := (false, 1, 0) }, [])).map
        (fun t => ((t.1.1 none).2.phase, (t.1.2.rate.allow (.v4 0) 0).2,
          (rightId.foldlM (guarded (fun _ e => e.served none)
            (hostTrace Panel.kscreen sampleHost sampleSerde)) t).isSome)) =
        some (.hello, false, true) := by decide +kernel
  obtain ⟨t, ht, hp⟩ := Option.map_eq_some_iff.1 hrun
  obtain ⟨hphase, hlimited, hsome⟩ : (t.1.1 none).2.phase = .hello ∧
      (t.1.2.rate.allow (.v4 0) 0).2 = false ∧
      (rightId.foldlM (guarded (fun _ e => e.served none)
        (hostTrace Panel.kscreen sampleHost sampleSerde)) t).isSome = true := by
    simpa only [Prod.mk.injEq] using hp
  obtain ⟨u, hu⟩ := Option.isSome_iff_exists.1 hsome
  have h := run_steps_iff.2 ht
  have h' := run_guarded_iff.2 hu
  have ha : Authentic sampleHost sampleSerde (delivered (eventsOf none lockedOut)) :=
    ⟨(Proto.clientHello, [1]), [], by decide +kernel, rfl, _, rfl, rfl⟩
  have hpos : 0 < (t.1.1 none).2.phase.toLoop := by
    rw [hphase]
    exact Nat.succ_pos 5
  refine ⟨t, u, h, hlimited, h'.of_guard, ?_⟩
  rcases (right_id_admitted _ _ _ _ _ _ _ t u none h h').2 hpos ha with hl | ⟨hlt, -⟩
  · exact hl
  · exact absurd hlt (by decide)

end DdrdeskHost
