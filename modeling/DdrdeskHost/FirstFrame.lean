import DdrdeskHost.Cleanup
import DdrdeskHost.SessionRead

namespace DdrdeskHost
set_option autoImplicit true

/-- The frame is a ClientHello with the host's ID. -/
def Admits (H : HostState) (S : Serde) (f : Frame) : Prop :=
  f.1 = Proto.clientHello ∧ ∃ hello, S.clientHello f.2 = some hello ∧ hello.id = H.id

/-- The first frame of these bytes is a ClientHello with the host's ID. -/
def Authentic (H : HostState) (S : Serde) (sent : List UInt8) : Prop :=
  ∃ f rest, readFrame sent = .ok (f, rest) ∧ Admits H S f

/-- The first frame of these bytes is anything else. -/
def Refused (H : HostState) (S : Serde) (sent : List UInt8) : Prop :=
  ∃ f rest, readFrame sent = .ok (f, rest) ∧ ¬Admits H S f

/-- A frame of the session proper, a change of the display or of the counter, a capture that is
started, an input event that is injected. -/
def Effect.privileged : Effect → Bool
  | .wrote typ _ _ =>
    typ = Proto.serverHello || typ = Proto.status || typ = Proto.video || typ = Proto.pong
  | .applyViewport .. | .applyUiScale _ | .restore | .captureStart .. | .input ..
  | .clientConnected | .clientDisconnected => true
  | _ => false

/-- The limiter is asked at most once, and at most one AUTH_FAIL is written after that. -/
def AuthFailOnly (S : Serde) (addr : IpAddr) (es : List Effect) : Prop :=
  ∃ now ok error w,
    es <+: [.allow addr now ok, .wrote Proto.authFail (S.authFail { error := error }) w]

/-- The task takes the step, not the client or the capture. -/
def Event.task : Event → Bool
  | .read _ | .recv _ | .next _ => true
  | _ => false

/-- The steps that are left to a session that is not admitted. -/
def Phase.toEnd : Phase → Nat
  | .hello => 3
  | .rejected => 2
  | .refusing _ => 1
  | _ => 0

/-- The session has not been admitted yet. -/
def Phase.early : Phase → Bool
  | .hello | .rejected | .refusing _ => true
  | _ => false

/-- What a session has done before it is admitted, and that only an admitted one does more. -/
def Early (H : HostState) (S : Serde) (addr : IpAddr) (sent : List UInt8)
    (t : Conn × List Effect) : Prop :=
  match t.1.phase with
  | .hello => t.1.fut.InFlight ∧ t.1.unread = sent ∧ t.2 = []
  | .rejected => Refused H S sent ∧ t.2 = []
  | .refusing _ => Refused H S sent ∧ ∃ now ok, t.2 = [.allow addr now ok]
  | .returned => Authentic H S sent ∨ AuthFailOnly S addr t.2
  | _ => Authentic H S sent

section
variable {H : HostState} {S : Serde} {addr : IpAddr}

theorem Authentic.append (h : Authentic H S sent) (x : List UInt8) :
    Authentic H S (sent ++ x) := by
  obtain ⟨f, rest, hr, ha⟩ := h
  exact ⟨f, rest ++ x, readFrame_append hr x, ha⟩

theorem Refused.append (h : Refused H S sent) (x : List UInt8) : Refused H S (sent ++ x) := by
  obtain ⟨f, rest, hr, ha⟩ := h
  exact ⟨f, rest ++ x, readFrame_append hr x, ha⟩

theorem Refused.not_authentic (h : Refused H S sent) : ¬Authentic H S sent := by
  rintro ⟨f, rest, hr, ha⟩
  obtain ⟨f', rest', hr', hn⟩ := h
  cases hr.symm.trans hr'
  exact hn ha

theorem AuthFailOnly.nil (S : Serde) (addr : IpAddr) : AuthFailOnly S addr [] :=
  ⟨0, true, "", .done, List.nil_prefix⟩

theorem Early.of_authentic (h : Authentic H S sent) (hp : t.1.phase.early = false) :
    Early H S addr sent t := by
  unfold Early
  cases hq : t.1.phase with
  | hello | rejected | refusing _ =>
    rw [hq] at hp
    cases hp
  | returned => exact .inl h
  | _ => exact h

theorem Conn.Goes.not_early (hg : Conn.Goes H S addr c e p es) (h : c.phase.early = false) :
    p.early = false := by
  cases hg with
  | arrived | ended | pending => exact h
  | queued | left => rfl
  | hello a hp | gone a hp =>
    rw [hp] at h
    cases h
  | @frame l f _ a hp hf =>
    have hd := dispatches S l f a
    generalize (dispatch S l f a).1 = q, (dispatch S l f a).2 = qs at hd ⊢
    cases hd <;> rfl
  | video a hp hq =>
    rw [onVideo]
    split <;> rfl
  | next a hn =>
    have hpr := proceeds hn
    generalize c.phase = q at hpr h
    cases hpr with
    | limited | refused => cases h
    | _ => rfl

theorem onHello_of_admits (h : Admits H S f) : ∃ vp, onHello H S f = .authenticated vp := by
  obtain ⟨hf, hello, hs, hid⟩ := h
  obtain ⟨typ, payload⟩ := f
  have hf : typ = Proto.clientHello := hf
  subst hf
  have hs : S.clientHello payload = some hello := hs
  exact ⟨hello.viewport, by rw [onHello_eq hs, if_pos hid]⟩

theorem onHello_of_not_admits (h : ¬Admits H S f) :
    onHello H S f = .returned ∨ onHello H S f = .rejected := by
  unfold onHello
  split
  · exact .inl rfl
  · next hf =>
    split
    · exact .inl rfl
    · next hello hs =>
      have hid : hello.id ≠ H.id := by
        intro hid
        exact h ⟨Decidable.not_not.1 hf, hello, hs, hid⟩
      rw [if_neg hid]
      exact .inr rfl

theorem Early.step_hello (h : Conn.step H S addr c e = some (c', es))
    (he : Early H S addr sent (c, [])) (hp : c.phase = .hello) :
    es = [] ∧ Early H S addr (sent ++ e.bytes) (c', []) := by
  simp only [Early, hp] at he
  obtain ⟨hfl, rfl, -⟩ := he
  obtain ⟨rfl, hstep⟩ := Conn.step_hello h hfl hp
  apply And.intro rfl
  cases hstep with
  | waits hp' hfl' hu =>
    simp only [Early, hp']
    exact ⟨hfl', hu, trivial⟩
  | @frame f rest hb hf hp' =>
    rw [hb, List.append_nil]
    by_cases ha : Admits H S f
    · obtain ⟨vp, hvp⟩ := onHello_of_admits ha
      simp only [Early, hp', hvp]
      exact ⟨f, rest, hf, ha⟩
    · rcases onHello_of_not_admits ha with hn | hn
      · simp only [Early, hp', hn]
        exact .inr (.nil S addr)
      · simp only [Early, hp', hn]
        exact ⟨⟨f, rest, hf, ha⟩, trivial⟩
  | gone hb hp' =>
    simp only [Early, hp']
    exact .inr (.nil S addr)

theorem Early.step_rejected (hg : c.Goes H S addr e c'.phase es)
    (he : Early H S addr sent (c, log)) (hp : c.phase = .rejected) :
    Early H S addr (sent ++ e.bytes) (c', log ++ es) := by
  simp only [Early, hp] at he
  obtain ⟨href, rfl⟩ := he
  generalize hp' : c'.phase = p' at hg
  cases hg with
  | arrived | ended | pending =>
    simp only [Early, hp', hp]
    exact ⟨href.append _, rfl⟩
  | next a hn =>
    have hpr := proceeds hn
    rw [hp] at hpr
    cases hpr with
    | limited error =>
      simp only [Early, hp']
      exact ⟨href.append _, _, _, rfl⟩
  | queued au h | hello a h | frame a h | gone a h | left a h | video a h => cases hp.symm.trans h

theorem Early.step_refusing (hg : c.Goes H S addr e c'.phase es)
    (he : Early H S addr sent (c, log)) (hp : c.phase = .refusing error) :
    Early H S addr (sent ++ e.bytes) (c', log ++ es) := by
  simp only [Early, hp] at he
  obtain ⟨href, now, ok, rfl⟩ := he
  generalize hp' : c'.phase = p' at hg
  cases hg with
  | arrived | ended | pending =>
    simp only [Early, hp', hp]
    exact ⟨href.append _, now, ok, rfl⟩
  | next a hn =>
    have hpr := proceeds hn
    rw [hp] at hpr
    cases hpr with
    | refused =>
      simp only [Early, hp']
      exact .inr ⟨now, ok, error, a.write, List.prefix_rfl⟩
  | queued au h | hello a h | frame a h | gone a h | left a h | video a h => cases hp.symm.trans h

theorem Early.step (h : Conn.trace H S addr t e = some t') (he : Early H S addr sent t) :
    Early H S addr (sent ++ e.bytes) t' := by
  obtain ⟨⟨c', es⟩, hstep, ht⟩ := Option.map_eq_some_iff.1 h
  cases ht
  obtain ⟨c, log⟩ := t
  have hg := Conn.goes hstep
  cases hp : c.phase with
  | hello =>
    have hlog : log = [] := by
      simp only [Early, hp] at he
      exact he.2.2
    subst hlog
    obtain ⟨rfl, hnext⟩ := he.step_hello hstep hp
    exact hnext
  | rejected => exact he.step_rejected hg hp
  | refusing error => exact he.step_refusing hg hp
  | returned => exact absurd hp hg.running
  | _ =>
    have ha : Authentic H S sent := by simpa only [Early, hp] using he
    exact .of_authentic (ha.append _) (hg.not_early (by rw [hp]; rfl))

theorem Early.run (h : Run (Steps (Conn.trace H S addr)) ({}, []) evs t) :
    Early H S addr (delivered evs) t := by
  apply h.invariant_trace (p := []) (I := fun p t => Early H S addr (delivered p) t)
  · intro p s e u hs hst
    rw [delivered_append, delivered_singleton]
    exact hs.step hst
  · exact ⟨Nat.succ_pos _, rfl, rfl⟩

/-- Without a first frame that admits it, a session has written an AUTH_FAIL at most. -/
theorem Early.authFailOnly (he : Early H S addr sent t) (hn : ¬Authentic H S sent) :
    AuthFailOnly S addr t.2 := by
  unfold Early at he
  cases hp : t.1.phase with
  | hello =>
    simp only [hp] at he
    rw [he.2.2]
    exact .nil S addr
  | rejected =>
    simp only [hp] at he
    rw [he.2]
    exact .nil S addr
  | refusing error =>
    simp only [hp] at he
    obtain ⟨-, now, ok, hlog⟩ := he
    rw [hlog]
    exact ⟨now, ok, error, .done, [.wrote Proto.authFail _ .done], rfl⟩
  | returned =>
    simp only [hp] at he
    exact he.resolve_left hn
  | _ =>
    simp only [hp] at he
    exact absurd he hn

theorem AuthFailOnly.privileged (h : AuthFailOnly S addr es) :
    ∀ x ∈ es, x.privileged = false := by
  obtain ⟨now, ok, error, w, hpre⟩ := h
  intro x hx
  rcases List.mem_cons.1 (hpre.subset hx) with rfl | hx
  · rfl
  · rw [List.mem_singleton.1 hx]
    rfl

end

section
variable {ι : Type*} [DecidableEq ι] {K : Kscreen W} {H : HostState} {S : Serde}

/-- All the bytes of the first frame are there, or no more will come. -/
def FirstFrameIn (c : Conn) (sent : List UInt8) : Prop :=
  c.eof = true ∨ readFrame sent ≠ .error .readLength ∧ readFrame sent ≠ .error .readBody

/-- Whatever the session does next, only the limiter of the shared state changes. -/
def TouchesLimiterOnly (K : Kscreen W) (H : HostState) (S : Serde)
    (s : (ι → IpAddr × Conn) × Shared W) (i : ι) : Prop :=
  ∀ e t, hostStep K H S s (.turn i e) = some t →
    t.2.display = s.2.display ∧ t.2.clients = s.2.clients ∧ ∀ j, j ≠ i → t.1 j = s.1 j

/-- The session has ended, or its task can go on and is nearer to its end with every step. -/
def Ends (K : Kscreen W) (H : HostState) (S : Serde) (s : (ι → IpAddr × Conn) × Shared W)
    (i : ι) : Prop :=
  (s.1 i).2.phase = .returned ∨
    (∃ e t, e.task = true ∧ hostStep K H S s (.turn i e) = some t) ∧
      ∀ e t, e.task = true → hostStep K H S s (.turn i e) = some t →
        (t.1 i).2.phase.toEnd < (s.1 i).2.phase.toEnd

theorem perform_quiet {g g' : Shared W} {x : Effect} (hx : x.privileged = false)
    (h : g.perform K x = some g') : g'.display = g.display ∧ g'.clients = g.clients := by
  cases x with
  | allow | setScreen =>
    obtain ⟨-, h⟩ := Option.ite_none_right_eq_some.1 h
    cases h
    exact ⟨rfl, rfl⟩
  | applyViewport | applyUiScale | restore | captureStart | input | clientConnected
  | clientDisconnected => cases hx
  | wrote | dispatched | captureStop | captureDrop =>
    cases h
    exact ⟨rfl, rfl⟩

theorem performs_quiet {es : List Effect} {g g' : Shared W}
    (hx : ∀ x ∈ es, Effect.privileged x = false)
    (h : es.foldlM (Shared.perform K) g = some g') :
    g'.display = g.display ∧ g'.clients = g.clients := by
  induction es generalizing g with
  | nil =>
    cases h
    exact ⟨rfl, rfl⟩
  | cons x es ih =>
    obtain ⟨g₁, h₁, h⟩ := Option.bind_eq_some_iff.1 (List.foldlM_cons.symm.trans h)
    obtain ⟨hd, hc⟩ := ih (fun y hy => hx y (List.mem_cons_of_mem x hy)) h
    obtain ⟨hd₁, hc₁⟩ := perform_quiet (hx x List.mem_cons_self) h₁
    exact ⟨hd.trans hd₁, hc.trans hc₁⟩

theorem Early.quiet (he : Early H S addr sent (c, log)) (hn : ¬Authentic H S sent)
    (h : c.step H S addr e = some (c', es)) : ∀ x ∈ es, x.privileged = false := by
  by_cases hb : e.bytes = []
  · have hnext := he.step (Conn.trace_eq h log)
    rw [hb, List.append_nil] at hnext
    intro x hx
    exact (hnext.authFailOnly hn).privileged x (List.mem_append_right log hx)
  · have hg := Conn.goes h
    generalize c'.phase = p at hg
    cases hg with
    | arrived => simp
    | _ => exact absurd rfl hb

theorem Early.touchesLimiterOnly {s : (ι → IpAddr × Conn) × Shared W}
    (he : Early H S (s.1 i).1 sent ((s.1 i).2, log)) (hn : ¬Authentic H S sent) :
    TouchesLimiterOnly K H S s i := by
  intro e t h
  obtain ⟨⟨p, g⟩, hstep, rfl⟩ := Option.map_eq_some_iff.1 h
  obtain ⟨es, hc, hg⟩ := sessionStep_eq_some hstep
  obtain ⟨hd, hcl⟩ := performs_quiet (he.quiet hn hc) hg
  exact ⟨hd, hcl, fun j hj => Function.update_of_ne hj _ _⟩

theorem hostStep_turn {s : (ι → IpAddr × Conn) × Shared W}
    (hc : (s.1 i).2.step H S (s.1 i).1 e = some (c', es))
    (hg : es.foldlM (Shared.perform K) s.2 = some g) :
    hostStep K H S s (.turn i e) = some (Function.update s.1 i ((s.1 i).1, c'), g) := by
  apply takeTurn_eq
  rw [sessionStep, hc, Option.bind_some, hg]
  rfl

theorem Conn.read_enabled (hp : c.phase = .hello) (a : Answer) :
    ∃ c', Conn.step H S addr c (.read a) = some (c', []) := by
  simp only [Conn.step, hp]
  cases c.fut.poll c.arrived with
  | ready f rest => exact ⟨_, rfl⟩
  | failed e => exact ⟨_, rfl⟩
  | pending fut => cases c.eof <;> exact ⟨_, rfl⟩

theorem Early.enabled {s : (ι → IpAddr × Conn) × Shared W}
    (he : (s.1 i).2.phase.early = true) :
    ∃ e t, Event.task e = true ∧ hostStep K H S s (.turn i e) = some t := by
  cases hp : (s.1 i).2.phase with
  | hello =>
    obtain ⟨c', hc⟩ : ∃ c', (s.1 i).2.step H S (s.1 i).1 (.read {}) = some (c', []) :=
      Conn.read_enabled hp {}
    exact ⟨_, _, rfl, hostStep_turn hc rfl⟩
  | rejected =>
    obtain ⟨ok, hok⟩ : ∃ ok, (s.2.rate.allow (s.1 i).1 0).2 = ok := ⟨_, rfl⟩
    have hnext : nextPhase H S (s.1 i).1 { allowed := ok } (s.1 i).2.phase =
        some (.refusing (if ok then "bad_id" else "rate_limited"), [.allow (s.1 i).1 0 ok]) := by
      rw [hp]
      rfl
    have hperform : [Effect.allow (s.1 i).1 0 ok].foldlM (Shared.perform K) s.2 =
        some { s.2 with rate := (s.2.rate.allow (s.1 i).1 0).1 } := by
      simp [Shared.perform, hok]
    exact ⟨_, _, rfl, hostStep_turn (Conn.step_next hnext) hperform⟩
  | refusing error =>
    have hnext : nextPhase H S (s.1 i).1 {} (s.1 i).2.phase = some (.returned,
        [.wrote Proto.authFail (S.authFail { error := error }) .done]) := by
      rw [hp]
      rfl
    exact ⟨_, _, rfl, hostStep_turn (Conn.step_next hnext) rfl⟩
  | _ =>
    rw [hp] at he
    cases he

theorem Conn.read_phase (h : Conn.step H S addr c (.read a) = some (c', es)) :
    c.phase = .hello ∨ ∃ l, c.phase = .streaming l := by
  cases hp : c.phase with
  | hello => exact .inl rfl
  | streaming l => exact .inr ⟨l, rfl⟩
  | _ =>
    simp only [Conn.step, hp, onFrame, onReadFailed, Option.map_none, ite_self] at h
    split at h <;> cases h

theorem Early.toEnd_lt_hello (he : Early H S addr sent (c, log)) (hin : FirstFrameIn c sent)
    (hp : c.phase = .hello) (h : c.step H S addr (.read a) = some (c', es)) :
    c'.phase.toEnd < Phase.hello.toEnd := by
  simp only [Early, hp] at he
  obtain ⟨hfl, rfl, -⟩ := he
  cases (Conn.step_hello h hfl hp).2 with
  | waits hp' hfl' hu hw =>
    obtain ⟨heof, hbytes⟩ := hw a rfl
    rcases hin with hin | ⟨hlen, hbody⟩
    · rw [hin] at heof
      cases heof
    · have hshort := hfl'.readFrame
      rw [hbytes] at hshort
      rcases hshort with hshort | hshort
      · exact absurd hshort hlen
      · exact absurd hshort hbody
  | @frame f rest hb hf hp' =>
    rw [hp']
    rcases onHello_cases H S f with h | h | ⟨vp, h⟩ <;> rw [h] <;> simp [Phase.toEnd]
  | gone hb hp' =>
    rw [hp']
    decide

theorem Early.toEnd_lt (he : Early H S addr sent (c, log)) (hin : FirstFrameIn c sent)
    (hp : c.phase.early = true) (h : c.step H S addr e = some (c', es)) (ht : e.task = true) :
    c'.phase.toEnd < c.phase.toEnd := by
  cases e with
  | arrive chunk | eof | enqueue au => cases ht
  | read a =>
    rcases Conn.read_phase h with hq | ⟨l, hq⟩
    · rw [hq]
      exact he.toEnd_lt_hello hin hq h
    · rw [hq] at hp
      cases hp
  | recv a =>
    have hg := Conn.goes h
    generalize c'.phase = p at hg
    cases hg with
    | video a hq =>
      rw [hq] at hp
      cases hp
  | next a =>
    have hg := Conn.goes h
    generalize c'.phase = p at hg
    cases hg with
    | next a hn =>
      have hpr := proceeds hn
      generalize c.phase = q at hpr hp
      cases hpr with
      | limited | refused => exact Nat.lt_succ_self _
      | _ => cases hp

theorem Early.ends {s : (ι → IpAddr × Conn) × Shared W}
    (he : Early H S (s.1 i).1 sent ((s.1 i).2, log)) (hn : ¬Authentic H S sent)
    (hin : FirstFrameIn (s.1 i).2 sent) : Ends K H S s i := by
  cases hp : (s.1 i).2.phase.early with
  | false =>
    apply Or.inl
    unfold Early at he
    generalize (s.1 i).2.phase = p at he hp
    cases p with
    | returned => rfl
    | hello | rejected | refusing _ => cases hp
    | _ => exact absurd he hn
  | true =>
    apply Or.inr
    apply And.intro (Early.enabled hp)
    intro e t ht h
    obtain ⟨⟨p, g⟩, hstep, rfl⟩ := Option.map_eq_some_iff.1 h
    obtain ⟨es, hc, -⟩ := sessionStep_eq_some hstep
    simp only [Function.update_self]
    exact he.toEnd_lt hin hp hc ht

end

/-- Among any other sessions, a connection makes privileged calls only once its first frame has
been a ClientHello with the host's ID. Any other one is left an AUTH_FAIL at most, changes nothing
but the limiter, and ends as soon as its first frame is there. -/
theorem no_effect_before_authentication (K : Kscreen W) (H : HostState) (S : Serde)
    [DecidableEq ι] (addr : ι → IpAddr) (d : Display W) (es : List (HostEvent ι W))
    (s : (ι → IpAddr × Conn) × Shared W)
    (h : Run (Steps (hostStep K H S)) (hostStart addr d) es s) (i : ι) :
    ∃ log, Run (Steps (Conn.trace H S (addr i))) ({}, []) (eventsOf i es) ((s.1 i).2, log) ∧
      ((∃ x ∈ log, x.privileged = true) → Authentic H S (delivered (eventsOf i es))) ∧
      (¬Authentic H S (delivered (eventsOf i es)) →
        AuthFailOnly S (addr i) log ∧ TouchesLimiterOnly K H S s i ∧
          (FirstFrameIn (s.1 i).2 (delivered (eventsOf i es)) → Ends K H S s i)) := by
  obtain ⟨haddr, log, hrun⟩ := session_runs_alone h i
  have he := Early.run hrun
  refine ⟨log, hrun, ?_, ?_⟩
  · rintro ⟨x, hx, hpriv⟩
    by_contra hn
    rw [(he.authFailOnly hn).privileged x hx] at hpriv
    cases hpriv
  · intro hn
    rw [← haddr] at he ⊢
    exact ⟨he.authFailOnly hn, he.touchesLimiterOnly hn, fun hin => he.ends hn hin⟩

/-- A client with a wrong ID, up to its AUTH_FAIL. -/
def wrongId : List (HostEvent Unit Panel) :=
  [.turn () (.arrive (writeFrame Proto.clientHello [2])), .turn () (.read {}),
    .turn () (.next {}), .turn () (.next {})]

theorem no_effect_before_authentication_wrong_id :
    ∃ log, (∃ c, Run (Steps (Conn.trace sampleHost sampleSerde (.v4 0))) ({}, [])
      (eventsOf () wrongId) (c, log)) ∧ log ≠ [] ∧ AuthFailOnly sampleSerde (.v4 0) log := by
  have hrun : (wrongId.foldlM (hostStep Panel.kscreen sampleHost sampleSerde)
      (hostStart (fun _ => .v4 0) { world := (false, 1, 0) })).map (fun s => (s.1 ()).2.phase) =
        some .returned := by decide +kernel
  obtain ⟨s, hs, hp⟩ := Option.map_eq_some_iff.1 hrun
  have hsent : readFrame (delivered (eventsOf () wrongId)) = .ok ((Proto.clientHello, [2]), []) :=
    by decide +kernel
  have hnot : ¬Admits sampleHost sampleSerde (Proto.clientHello, [2]) := by
    rintro ⟨-, hello, hs, hid⟩
    cases hs
    exact absurd hid (by decide)
  obtain ⟨log, hlog, -, hrest⟩ := no_effect_before_authentication Panel.kscreen sampleHost
    sampleSerde _ _ wrongId s (run_steps_iff.2 hs) ()
  have hne : log ≠ [] := by
    rintro rfl
    have htrace : ((eventsOf () wrongId).foldlM (Conn.trace sampleHost sampleSerde (.v4 0))
        ({}, [])).map (fun t => t.2.length) = some 2 := by decide +kernel
    obtain ⟨t, ht, hlen⟩ := Option.map_eq_some_iff.1 htrace
    cases run_steps_unique (run_steps_iff.2 ht) hlog
    cases hlen
  have hfail := (hrest (Refused.not_authentic ⟨_, _, hsent, hnot⟩)).1
  exact ⟨log, ⟨_, hlog⟩, hne, hfail⟩

end DdrdeskHost
