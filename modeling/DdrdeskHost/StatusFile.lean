import DdrdeskHost.Cleanup
import DdrdeskHost.FirstFrame

namespace DdrdeskHost
set_option autoImplicit true

def Proto.port : Nat := 44789

/-- What `status.json` holds. -/
structure Snapshot where
  id : String
  idPretty : String
  hostname : String
  endpoints : List String
  clients : Nat
  port : Nat
  fingerprint : String
  deriving DecidableEq

/-- What `status::write` writes, by the counter that it has loaded. -/
def HostState.snapshot (H : HostState) (clients : Nat) : Snapshot :=
  { id := H.id, idPretty := formatId H.id, hostname := H.hostname, endpoints := H.endpoints,
    clients := clients, port := Proto.port, fingerprint := H.fingerprint }

/-- Where a session's call of `status::write` stands: it loads the counter and then writes. -/
inductive StatusWrite
  | idle
  | loading
  | storing (clients : Nat)
  deriving DecidableEq

/-- The counter has been loaded and is about to be written. -/
def StatusWrite.stores : StatusWrite → Bool
  | storing _ => true
  | _ => false

theorem StatusWrite.eq_storing {w : StatusWrite} (h : w.stores = true) : ∃ n, w = .storing n := by
  cases w with
  | storing n => exact ⟨n, rfl⟩
  | _ => cases h

/-- A session with the record of its calls, and with its call of `status::write`. -/
structure Reporter where
  addr : IpAddr
  conn : Conn := {}
  log : List Effect := []
  status : StatusWrite := .idle
  deriving DecidableEq

inductive ReportEvent
  | session (e : Event)
  | load
  | store
  deriving DecidableEq

/-- The step changes the counter; `status::write` is called after it. -/
def Conn.counts (c : Conn) : Event → Bool
  | .next _ =>
    match c.phase with
    | .announced .. | .disconnecting => true
    | _ => false
  | _ => false

/-- All sessions and the user take turns, as in `HostEvent`. -/
inductive ServeEvent (ι : Type*) (W : Type)
  | turn (i : ι) (e : ReportEvent)
  | world (w : W)

section
variable (K : Kscreen W) (H : HostState) (S : Serde)

/-- The task of a session waits until its call of `status::write` returns. -/
def reportStep (p : Reporter) (g : Shared W × Snapshot) :
    ReportEvent → Option (Reporter × (Shared W × Snapshot))
  | .session e =>
    if e.task ∧ p.status ≠ .idle then none
    else
      (p.conn.step H S p.addr e).bind fun r =>
        (r.2.foldlM (Shared.perform K) g.1).map fun g' =>
          ({ p with conn := r.1, log := p.log ++ r.2,
                    status := if p.conn.counts e then .loading else p.status }, (g', g.2))
  | .load =>
    if p.status = .loading then some ({ p with status := .storing g.1.clients }, g) else none
  | .store =>
    match p.status with
    | .storing n => some ({ p with status := .idle }, (g.1, H.snapshot n))
    | _ => none

def serveStep [DecidableEq ι] (s : (ι → Reporter) × (Shared W × Snapshot)) :
    ServeEvent ι W → Option ((ι → Reporter) × (Shared W × Snapshot))
  | .turn i e => takeTurn (reportStep K H S) s (i, e)
  | .world w =>
    some (s.1, ({ s.2.1 with display := { s.2.1.display with world := w } }, s.2.2))

end

/-- The daemon listens: it has written the file once, before the first client. -/
def serveStart {ι : Type*} (H : HostState) (addr : ι → IpAddr) (d : Display W) :
    (ι → Reporter) × (Shared W × Snapshot) :=
  (fun i => { addr := addr i }, ({ display := d }, H.snapshot 0))

/-- The marks count a client in and not out. -/
def shareOf (ms : List Mark) : Nat := ms.count .clientConnected - ms.count .clientDisconnected

def Reporter.share (p : Reporter) : Nat := shareOf (marks p.log)

/-- The session has been counted in and not out: it is connected, or an error has ended it. -/
def Reporter.Present (p : Reporter) : Prop :=
  .clientConnected ∈ marks p.log ∧ .clientDisconnected ∉ marks p.log

instance (p : Reporter) : Decidable p.Present := inferInstanceAs (Decidable (_ ∧ _))

/-- The marks of a session as long as it runs; it makes all of them or stops between two. -/
structure Reporter.Marked (p : Reporter) : Prop where
  running : p.conn.phase ≠ .returned → marks p.log = p.conn.phase.marks
  order : marks p.log <+: Phase.finishing.marks

theorem shareOf_prefix (h : ms <+: Phase.finishing.marks) :
    shareOf ms = if .clientConnected ∈ ms ∧ .clientDisconnected ∉ ms then 1 else 0 := by
  have hall : ∀ ms ∈ Phase.finishing.marks.inits,
      shareOf ms = if .clientConnected ∈ ms ∧ .clientDisconnected ∉ ms then 1 else 0 := by decide
  exact hall ms (List.mem_inits _ _ |>.2 h)

theorem Reporter.Marked.share_eq {p : Reporter} (h : p.Marked) :
    p.share = if p.Present then 1 else 0 :=
  shareOf_prefix h.order

theorem Reporter.Marked.share_le {p : Reporter} (h : p.Marked) : p.share ≤ 1 := by
  rw [h.share_eq]
  split
  · exact Nat.le_refl 1
  · exact Nat.zero_le 1

theorem Phase.marks_prefix (p : Phase) : p.marks <+: Phase.finishing.marks := by
  cases p with
  | hello | rejected | refusing | authenticated | returned => exact List.nil_prefix
  | sized | greeted | announced => exact ⟨[.clientConnected, .restore, .clientDisconnected], rfl⟩
  | connected | streaming | stopping | restoring => exact ⟨[.restore, .clientDisconnected], rfl⟩
  | disconnecting => exact ⟨[.clientDisconnected], rfl⟩
  | finishing => exact List.prefix_rfl

theorem Moves.marked (h : Moves b p ms p') :
    (p' ≠ .returned → p.marks ++ ms = p'.marks) ∧ p.marks ++ ms <+: Phase.finishing.marks := by
  have hp : p.marks ++ [] <+: Phase.finishing.marks := by
    rw [List.append_nil]
    exact p.marks_prefix
  cases h with
  | stay hm => exact ⟨fun _ => (List.append_nil _).trans hm.symm, hp⟩
  | refuse | abort | finish => exact ⟨fun h => absurd rfl h, hp⟩
  | @apply vp enc => exact ⟨fun _ => rfl, Phase.marks_prefix (.sized vp enc)⟩
  | @connect vp enc => exact ⟨fun _ => rfl, Phase.marks_prefix (.connected vp enc)⟩
  | restore => exact ⟨fun _ => rfl, Phase.marks_prefix .disconnecting⟩
  | disconnect => exact ⟨fun _ => rfl, Phase.marks_prefix .finishing⟩

/-- The counter moves as the session's share of it does, unless it wraps around. -/
theorem Moves.share {n : Nat} (h : Moves b p ms p') (hwrap : shareOf p.marks = 0 → n + 1 < 2 ^ 32)
    (hn : shareOf p.marks ≤ n) :
    ms.foldl (fun n m => m.count n) n + shareOf p.marks = n + shareOf (p.marks ++ ms) := by
  cases h with
  | stay | refuse | abort | finish =>
    rw [List.append_nil]
    rfl
  | apply | restore => rfl
  | connect =>
    have hmod : clientConnected n = n + 1 := Nat.mod_eq_of_lt (hwrap rfl)
    exact hmod
  | disconnect =>
    have hsub : clientDisconnected n + 1 = n := Nat.sub_add_cancel hn
    exact hsub

theorem Moves.uncounted {n : Nat} (h : Moves b p ms p') (ha : ∀ vp enc, p ≠ .announced vp enc)
    (hd : p ≠ .disconnecting) : ms.foldl (fun n m => m.count n) n = n := by
  cases h with
  | connect => exact absurd rfl (ha _ _)
  | disconnect => exact absurd rfl hd
  | _ => rfl

section
variable {K : Kscreen W} {H : HostState} {S : Serde} {p p' : Reporter}
  {g g' : Shared W × Snapshot}

/-- What a step of one session does. -/
inductive Reports (H : HostState) (S : Serde) (p : Reporter)
    (g : Shared W × Snapshot) : ReportEvent → Reporter → Shared W × Snapshot → Prop
  | session {c : Conn} {es : List Effect} {e : Event} {sh : Shared W}
      (hi : e.task = true → p.status = .idle) (hg : p.conn.Goes H S p.addr e c.phase es)
      (hc : sh.clients = (marks es).foldl (fun n m => m.count n) g.1.clients) :
    Reports H S p g (.session e)
      { p with conn := c, log := p.log ++ es,
               status := if p.conn.counts e then .loading else p.status } (sh, g.2)
  | load (hs : p.status = .loading) :
    Reports H S p g .load { p with status := .storing g.1.clients } g
  | store (hs : p.status = .storing n) :
    Reports H S p g .store { p with status := .idle } (g.1, H.snapshot n)

theorem reports (h : reportStep K H S p g e = some (p', g')) : Reports H S p g e p' g' := by
  cases e with
  | session e =>
    obtain ⟨hi, h⟩ := Option.ite_none_left_eq_some.1 h
    obtain ⟨⟨c, es⟩, hstep, h⟩ := Option.bind_eq_some_iff.1 h
    obtain ⟨sh, hperform, he⟩ := Option.map_eq_some_iff.1 h
    cases he
    refine .session ?_ (Conn.goes hstep) (performs_clients hperform)
    intro ht
    by_contra hne
    exact hi ⟨ht, hne⟩
  | load =>
    obtain ⟨hs, h⟩ := Option.ite_none_right_eq_some.1 h
    cases h
    exact .load hs
  | store =>
    rw [reportStep] at h
    split at h
    · next n hs =>
      cases h
      exact .store hs
    · cases h

theorem Reports.marked (h : Reports H S p g e p' g') (hp : p.Marked) : p'.Marked := by
  cases h with
  | @session c es e sh hi hg hc =>
    have hm := hg.moves.marked
    rw [← hp.running hg.running, ← marks_append] at hm
    exact ⟨hm.1, hm.2⟩
  | load | store => exact ⟨hp.running, hp.order⟩

theorem Reports.share (h : Reports H S p g e p' g') (hp : p.Marked)
    (hwrap : p.share = 0 → g.1.clients + 1 < 2 ^ 32) (hn : p.share ≤ g.1.clients) :
    g'.1.clients + p.share = g.1.clients + p'.share := by
  cases h with
  | @session c es e sh hi hg hc =>
    have hr := hp.running hg.running
    rw [Reporter.share, hr] at hwrap hn
    have hm := hg.moves.share hwrap hn
    rw [← hr, ← marks_append] at hm
    change sh.clients + _ = _
    rw [hc]
    exact hm
  | load | store => rfl

end

section
variable {K : Kscreen W} {H : HostState} {S : Serde} [Fintype ι] [DecidableEq ι]
  {s t : (ι → Reporter) × (Shared W × Snapshot)}

/-- The counter is the sum of the sessions' shares. -/
structure Counted (s : (ι → Reporter) × (Shared W × Snapshot)) : Prop where
  marked : ∀ i, (s.1 i).Marked
  clients : s.2.1.clients = ∑ i, (s.1 i).share

omit [DecidableEq ι] in
theorem Counted.card (hs : Counted s) :
    s.2.1.clients = (Finset.univ.filter fun i => (s.1 i).Present).card := by
  rw [hs.clients, Finset.card_filter]
  exact Finset.sum_congr rfl fun i _ => (hs.marked i).share_eq

omit [DecidableEq ι] in
theorem Counted.room (hs : Counted s) (hcard : Fintype.card ι < 2 ^ 32) (i : ι)
    (hi : (s.1 i).share = 0) : s.2.1.clients + 1 < 2 ^ 32 := by
  have hlt : ∑ j, (s.1 j).share < ∑ _j : ι, 1 :=
    Finset.sum_lt_sum (fun j _ => (hs.marked j).share_le) ⟨i, Finset.mem_univ i, by omega⟩
  rw [Finset.sum_const, Finset.card_univ, smul_eq_mul, mul_one] at hlt
  rw [hs.clients]
  omega

theorem Counted.step {e : ServeEvent ι W} (hs : Counted s) (hcard : Fintype.card ι < 2 ^ 32)
    (h : serveStep K H S s e = some t) : Counted t := by
  cases e with
  | world w =>
    cases h
    exact ⟨hs.marked, hs.clients⟩
  | turn i e =>
    have hturn : Interleave (fun p g x p' g' => True ∧ reportStep K H S p g x = some (p', g'))
        s (i, e) t := Interleave.of_turn trivial h
    constructor
    · apply Interleave.forall_keep (I := fun p _ => p.Marked) ?_ ?_ hs.marked hturn
      · rintro p g e p' g' hp ⟨-, hst⟩
        exact (reports hst).marked hp
      · rintro q p g e p' g' hq - -
        exact hq
    · apply Interleave.sum_keep Reporter.share (fun g => g.1.clients) ?_ hs.clients hturn
      rintro c j g x p' g' rfl ⟨-, hst⟩
      apply (reports hst).share (hs.marked j) (hs.room hcard j)
      have hle := Finset.single_le_sum (f := fun i => (c i).share) (fun i _ => Nat.zero_le _)
        (Finset.mem_univ j)
      exact hle.trans (Nat.le_of_eq hs.clients.symm)

end

/-- No write of the file is under way, or the file shows the counter. -/
def Fresh {ι : Type*} (H : HostState) (s : (ι → Reporter) × (Shared W × Snapshot)) : Prop :=
  (∀ i, (s.1 i).status = .idle) → s.2.2 = H.snapshot s.2.1.clients

/-- The counter changes only while no other session is about to write what it has loaded. -/
def Undisturbed {ι : Type*} (s : (ι → Reporter) × (Shared W × Snapshot)) : ServeEvent ι W → Prop
  | .turn i (.session e) =>
    (s.1 i).conn.counts e = true → ∀ j, j ≠ i → (s.1 j).status.stores = false
  | _ => True

instance {ι : Type*} [Fintype ι] [DecidableEq ι] (s : (ι → Reporter) × (Shared W × Snapshot)) :
    ∀ e, Decidable (Undisturbed s e)
  | .turn i (.session _) =>
    inferInstanceAs (Decidable (_ → ∀ j, j ≠ i → (s.1 j).status.stores = false))
  | .turn _ .load | .turn _ .store | .world _ => inferInstanceAs (Decidable True)

/-- What a session is about to write is the counter, and a file that does not show it is going to
be written. -/
structure Current {ι : Type*} (H : HostState) (s : (ι → Reporter) × (Shared W × Snapshot)) :
    Prop where
  storing : ∀ i n, (s.1 i).status = .storing n → n = s.2.1.clients
  fresh : Fresh H s

section
variable {K : Kscreen W} {H : HostState} {S : Serde} {p p' : Reporter}
  {g g' : Shared W × Snapshot}

theorem Conn.Goes.uncounted {c : Conn} {n : Nat} (hg : c.Goes H S addr e q es)
    (hc : c.counts e = false) : (marks es).foldl (fun n m => m.count n) n = n := by
  have hm := hg.moves
  cases hg with
  | arrived | ended | pending | queued | hello | gone | left => rfl
  | frame a hp | video a hp =>
    rw [hp] at hm
    exact hm.uncounted (by simp) (by simp)
  | next a hn =>
    apply hm.uncounted
    · intro vp enc hp
      rw [Conn.counts, hp] at hc
      cases hc
    · intro hp
      rw [Conn.counts, hp] at hc
      cases hc

theorem Conn.Goes.counting {c : Conn} (hg : c.Goes H S addr e q es) (hc : c.counts e = true) :
    shareOf c.phase.marks ≠ shareOf q.marks ∧ q ≠ .returned := by
  cases hg with
  | next a hn =>
    cases hp : c.phase with
    | announced vp enc =>
      rw [hp] at hn
      cases hn
      exact ⟨Nat.zero_ne_one, by simp⟩
    | disconnecting =>
      rw [hp] at hn
      cases hn
      exact ⟨Nat.one_ne_zero, by simp⟩
    | _ =>
      rw [Conn.counts, hp] at hc
      cases hc
  | _ => cases hc

theorem Reports.share_ne (h : Reports H S p g (.session e) p' g') (hp : p.Marked)
    (hc : p.conn.counts e = true) : p.share ≠ p'.share := by
  have hp' := h.marked hp
  cases h with
  | session hi hg hcl =>
    obtain ⟨hne, hq⟩ := hg.counting hc
    rw [Reporter.share, Reporter.share, hp.running hg.running, hp'.running hq]
    exact hne

/-- A step that counts comes when the session's own writes are done, and a write follows. -/
theorem Reports.counting (h : Reports H S p g (.session e) p' g') (hc : p.conn.counts e = true) :
    p.status = .idle ∧ p'.status = .loading ∧ g'.2 = g.2 := by
  cases h with
  | session hi hg hcl =>
    have ht : e.task = true := by
      cases e with
      | next => rfl
      | _ => cases hc
    exact ⟨hi ht, if_pos hc, rfl⟩

theorem Reports.not_counting (h : Reports H S p g (.session e) p' g')
    (hc : p.conn.counts e = false) :
    p'.status = p.status ∧ g'.2 = g.2 ∧ g'.1.clients = g.1.clients := by
  cases h with
  | session hi hg hcl =>
    exact ⟨if_neg (by simp [hc]), rfl, hcl.trans (hg.uncounted hc)⟩

end

section
variable {ι : Type*} [DecidableEq ι] {K : Kscreen W} {H : HostState} {S : Serde}
  {s t : (ι → Reporter) × (Shared W × Snapshot)}

theorem serveStep_turn (h : serveStep K H S s (.turn i e) = some t) :
    ∃ p g, Reports H S (s.1 i) s.2 e p g ∧ t = (Function.update s.1 i p, g) := by
  obtain ⟨⟨p, g⟩, hst, rfl⟩ := Option.map_eq_some_iff.1 h
  exact ⟨p, g, reports hst, rfl⟩

theorem Current.step {e : ServeEvent ι W} (hs : Current H s) (hu : Undisturbed s e)
    (h : serveStep K H S s e = some t) : Current H t := by
  cases e with
  | world w =>
    cases h
    exact ⟨hs.storing, hs.fresh⟩
  | turn i e =>
    obtain ⟨p, g, hr, rfl⟩ := serveStep_turn h
    cases e with
    | session e =>
      cases hc : (s.1 i).conn.counts e with
      | true =>
        obtain ⟨hidle, hload, -⟩ := hr.counting hc
        constructor
        · intro j n hj
          by_cases hji : j = i
          · subst hji
            simp only [Function.update_self, hload] at hj
            cases hj
          · simp only [Function.update_of_ne hji] at hj
            have hstores := hu hc j hji
            rw [hj] at hstores
            cases hstores
        · intro hall
          have hi := hall i
          simp only [Function.update_self, hload] at hi
          cases hi
      | false =>
        obtain ⟨hstatus, hfile, hclients⟩ := hr.not_counting hc
        have hsame : ∀ j, (Function.update s.1 i p j).status = (s.1 j).status := by
          intro j
          by_cases hji : j = i
          · subst hji
            simpa only [Function.update_self] using hstatus
          · simp only [Function.update_of_ne hji]
        constructor
        · intro j n hj
          rw [hclients]
          exact hs.storing j n ((hsame j).symm.trans hj)
        · intro hall
          rw [hclients, hfile]
          exact hs.fresh fun j => (hsame j).symm.trans (hall j)
    | load =>
      cases hr with
      | load hst =>
        constructor
        · intro j n hj
          by_cases hji : j = i
          · subst hji
            simp only [Function.update_self] at hj
            cases hj
            rfl
          · simp only [Function.update_of_ne hji] at hj
            exact hs.storing j n hj
        · intro hall
          have hi := hall i
          simp only [Function.update_self] at hi
          cases hi
    | store =>
      cases hr with
      | @store n hst =>
        have hn := hs.storing i n hst
        constructor
        · intro j m hj
          by_cases hji : j = i
          · subst hji
            simp only [Function.update_self] at hj
            cases hj
          · simp only [Function.update_of_ne hji] at hj
            exact hs.storing j m hj
        · intro _
          rw [hn]

theorem finish_one (K : Kscreen W) (H : HostState) (S : Serde) (i : ι)
    (s : (ι → Reporter) × (Shared W × Snapshot)) :
    ∃ es u, Run (Steps (serveStep K H S)) s es u ∧ u.2.1 = s.2.1 ∧ (u.1 i).status = .idle ∧
      (∀ j, (u.1 j).log = (s.1 j).log) ∧ ∀ j, j ≠ i → u.1 j = s.1 j := by
  have hlog (p : Reporter) (hp : p.log = (s.1 i).log) :
      ∀ j, (Function.update s.1 i p j).log = (s.1 j).log := by
    intro j
    by_cases hj : j = i
    · subst hj
      simpa only [Function.update_self] using hp
    · simp only [Function.update_of_ne hj]
  cases hst : (s.1 i).status with
  | idle => exact ⟨[], s, .nil s, rfl, hst, fun _ => rfl, fun _ _ => rfl⟩
  | storing n =>
    have hstep : reportStep K H S (s.1 i) s.2 .store =
        some ({ s.1 i with status := .idle }, (s.2.1, H.snapshot n)) := by
      simp only [reportStep, hst]
    refine ⟨[.turn i .store], _, .single (takeTurn_eq hstep), rfl, ?_, hlog _ rfl, ?_⟩
    · simp only [Function.update_self]
    · intro j hj
      simp only [Function.update_of_ne hj]
  | loading =>
    have hload : reportStep K H S (s.1 i) s.2 .load =
        some ({ s.1 i with status := .storing s.2.1.clients }, s.2) := by
      simp only [reportStep, hst, ↓reduceIte]
    have hstore : reportStep K H S { s.1 i with status := .storing s.2.1.clients } s.2 .store =
        some ({ s.1 i with status := .idle }, (s.2.1, H.snapshot s.2.1.clients)) := rfl
    have hsecond : serveStep K H S (Function.update s.1 i
        { s.1 i with status := .storing s.2.1.clients }, s.2) (.turn i .store) =
          some (Function.update s.1 i { s.1 i with status := .idle },
            (s.2.1, H.snapshot s.2.1.clients)) := by
      simp only [serveStep, takeTurn, Function.update_self, hstore, Option.map_some,
        Function.update_idem]
    refine ⟨[.turn i .load, .turn i .store], _, .cons (takeTurn_eq hload) (.single hsecond), rfl,
      ?_, hlog _ rfl, ?_⟩
    · simp only [Function.update_self]
    · intro j hj
      simp only [Function.update_of_ne hj]

theorem finish_writes (K : Kscreen W) (H : HostState) (S : Serde) (l : List ι)
    (s : (ι → Reporter) × (Shared W × Snapshot)) :
    ∃ es u, Run (Steps (serveStep K H S)) s es u ∧ u.2.1 = s.2.1 ∧
      (∀ i ∈ l, (u.1 i).status = .idle) ∧ (∀ j, (u.1 j).log = (s.1 j).log) ∧
      ∀ j, j ∉ l → u.1 j = s.1 j := by
  induction l generalizing s with
  | nil => exact ⟨[], s, .nil s, rfl, by simp, fun _ => rfl, fun _ _ => rfl⟩
  | cons i l ih =>
    obtain ⟨es, u, hrun, hshared, hidle, hlog, hother⟩ := finish_one K H S i s
    obtain ⟨es', v, hrun', hshared', hidle', hlog', hother'⟩ := ih u
    refine ⟨es ++ es', v, hrun.append hrun', hshared'.trans hshared, ?_,
      fun j => (hlog' j).trans (hlog j), ?_⟩
    · intro j hj
      by_cases hm : j ∈ l
      · exact hidle' j hm
      · rcases List.mem_cons.1 hj with rfl | hm'
        · rw [hother' j hm]
          exact hidle
        · exact absurd hm' hm
    · intro j hj
      rw [List.mem_cons, not_or] at hj
      rw [hother' j hj.2, hother j hj.1]

end

section
variable {ι : Type*} [Fintype ι] [DecidableEq ι] {K : Kscreen W} {H : HostState} {S : Serde}
  {s t : (ι → Reporter) × (Shared W × Snapshot)}

omit [DecidableEq ι] in
theorem Counted.start (H : HostState) (addr : ι → IpAddr) (d : Display W) :
    Counted (serveStart H addr d) :=
  ⟨fun _ => ⟨fun _ => rfl, List.nil_prefix⟩, (Finset.sum_eq_zero fun _ _ => rfl).symm⟩

theorem Counted.run {addr : ι → IpAddr} {d : Display W} (hcard : Fintype.card ι < 2 ^ 32)
    (h : Run (Steps (serveStep K H S)) (serveStart H addr d) es s) : Counted s :=
  h.invariant (I := Counted) (fun _ _ _ hs hst => hs.step hcard hst) (.start H addr d)

theorem Counted.changes (hs : Counted s) (hcard : Fintype.card ι < 2 ^ 32)
    (h : serveStep K H S s (.turn i (.session e)) = some t) (hc : (s.1 i).conn.counts e = true) :
    t.2.1.clients ≠ s.2.1.clients := by
  obtain ⟨p, g, hr, rfl⟩ := serveStep_turn h
  have hle : (s.1 i).share ≤ s.2.1.clients :=
    (Finset.single_le_sum (f := fun i => (s.1 i).share) (fun i _ => Nat.zero_le _)
      (Finset.mem_univ i)).trans (Nat.le_of_eq hs.clients.symm)
  have hshare := hr.share (hs.marked i) (hs.room hcard i) hle
  have hne := hr.share_ne (hs.marked i) hc
  simp only
  omega

/-- A write that is overtaken by a step that counts can be the last one. -/
theorem stale_of_disturbed {e : ServeEvent ι W} (hs : Counted s) (hcur : Current H s)
    (hcard : Fintype.card ι < 2 ^ 32) (hu : ¬Undisturbed s e) (h : serveStep K H S s e = some t) :
    ∃ es u, Run (Steps (serveStep K H S)) t es u ∧ (∀ i, (u.1 i).status = .idle) ∧
      u.2.2.clients ≠ u.2.1.clients := by
  cases e with
  | world w => exact absurd trivial hu
  | turn i e =>
    cases e with
    | load | store => exact absurd trivial hu
    | session e =>
      simp only [Undisturbed, not_forall, Bool.not_eq_false] at hu
      obtain ⟨hc, j, hji, hj⟩ := hu
      obtain ⟨n, hj⟩ := StatusWrite.eq_storing hj
      have hchange := hs.changes hcard h hc
      obtain ⟨p, g, hr, rfl⟩ := serveStep_turn h
      -- the session `j` comes last
      obtain ⟨es, u, hrun, hshared, hidle, -, hother⟩ :=
        finish_writes K H S (Finset.univ.erase j).toList (Function.update s.1 i p, g)
      have huj : (u.1 j).status = .storing n := by
        rw [hother j (by simp)]
        simpa only [Function.update_of_ne hji] using hj
      have hstore : reportStep K H S (u.1 j) u.2 .store =
          some ({ u.1 j with status := .idle }, (u.2.1, H.snapshot n)) := by
        simp only [reportStep, huj]
      have hlast : Steps (serveStep K H S) u (.turn j .store)
          (Function.update u.1 j { u.1 j with status := .idle }, (u.2.1, H.snapshot n)) :=
        takeTurn_eq hstore
      refine ⟨es ++ [.turn j .store], _, hrun.append (.single hlast), ?_, ?_⟩
      · intro k
        by_cases hk : k = j
        · subst hk
          simp only [Function.update_self]
        · simp only [Function.update_of_ne hk]
          exact hidle k (by simpa using hk)
      · change n ≠ u.2.1.clients
        rw [hshared, hcur.storing j n hj]
        exact hchange.symm

end

/-- The counter is the number of clients that were counted in and not out, whatever the order in
which any number of sessions, their errors and their writes of the status file come. -/
theorem clients_counted (K : Kscreen W) (H : HostState) (S : Serde) [Fintype ι] [DecidableEq ι]
    (addr : ι → IpAddr) (d : Display W) (hcard : Fintype.card ι < 2 ^ 32)
    (es : List (ServeEvent ι W))
    (s : (ι → Reporter) × (Shared W × Snapshot))
    (h : Run (Steps (serveStep K H S)) (serveStart H addr d) es s) :
    s.2.1.clients = (Finset.univ.filter fun i => (s.1 i).Present).card ∧
      ∀ i, (s.1 i).conn.phase ≠ .returned →
        ((s.1 i).Present ↔ (s.1 i).conn.phase.pastConnected = true ∧
          (s.1 i).conn.phase ≠ .finishing) := by
  have hs := Counted.run hcard h
  refine ⟨hs.card, ?_⟩
  intro i hp
  rw [Reporter.Present, (hs.marked i).running hp]
  cases (s.1 i).conn.phase <;> simp [Phase.marks, Phase.pastConnected]

/-- When no write is under way, `status.json` shows the clients that are connected or were ended by
an error, as long as no session changes the counter between another one's load and its write. A
session that does so can leave a file that shows another number. -/
theorem status_shows_clients (K : Kscreen W) (H : HostState) (S : Serde) [Fintype ι]
    [DecidableEq ι] (addr : ι → IpAddr) (d : Display W) (hcard : Fintype.card ι < 2 ^ 32)
    (es : List (ServeEvent ι W)) (s : (ι → Reporter) × (Shared W × Snapshot))
    (h : Run (Guard Undisturbed (Steps (serveStep K H S))) (serveStart H addr d) es s) :
    ((∀ i, (s.1 i).status = .idle) →
      s.2.2 = H.snapshot (Finset.univ.filter fun i => (s.1 i).Present).card) ∧
    ∀ e t, ¬Undisturbed s e → serveStep K H S s e = some t →
      ∃ es' u, Run (Steps (serveStep K H S)) t es' u ∧ (∀ i, (u.1 i).status = .idle) ∧
        u.2.2.clients ≠ (Finset.univ.filter fun i => (u.1 i).Present).card := by
  have hs := Counted.run hcard h.of_guard
  have hcur : Current H s := by
    apply h.invariant (I := Current H)
    · intro s e t hs hst
      exact hs.step hst.1 hst.2
    · constructor
      · intro i n hn
        cases hn
      · intro _
        rfl
  constructor
  · intro hidle
    rw [hcur.fresh hidle, hs.card]
  · intro e t hu hst
    obtain ⟨es', u, hrun, hidle, hne⟩ := stale_of_disturbed hs hcur hcard hu hst
    have hu := hrun.invariant (I := Counted) (fun _ _ _ hs hst => hs.step hcard hst)
      (hs.step hcard hst)
    rw [hu.card] at hne
    exact ⟨es', u, hrun, hidle, hne⟩

/-- A client joins, and its session writes the file. -/
def joins (i : Bool) : List (ServeEvent Bool Panel) :=
  (connected.take 6).map (fun e => .turn i (.session e)) ++ [.turn i .load, .turn i .store] ++
    (connected.drop 6).map fun e => .turn i (.session e)

/-- Two clients from two addresses. -/
def twoReporters (w : Panel) : (Bool → Reporter) × (Shared Panel × Snapshot) :=
  serveStart sampleHost (fun i => .v4 (if i then 2 else 1)) { world := w }

theorem clients_counted_two :
    ∃ es s, Run (Steps (serveStep Panel.kscreen sampleHost sampleSerde))
        (twoReporters (false, 1, 0)) es s ∧
      s.2.1.clients = (Finset.univ.filter fun i => (s.1 i).Present).card ∧
      s.2.1.clients = 2 := by
  have hrun : ((joins false ++ joins true).foldlM
      (serveStep Panel.kscreen sampleHost sampleSerde) (twoReporters (false, 1, 0))).map
        (fun s => s.2.1.clients) = some 2 := by decide +kernel
  obtain ⟨s, hs, hp⟩ := Option.map_eq_some_iff.1 hrun
  have h := run_steps_iff.2 hs
  exact ⟨_, s, h, (clients_counted _ _ _ _ _ (by decide) _ s h).1, hp⟩

theorem status_shows_clients_two :
    ∃ es s, Run (Guard Undisturbed (Steps (serveStep Panel.kscreen sampleHost sampleSerde)))
        (twoReporters (false, 1, 0)) es s ∧
      s.2.2 = sampleHost.snapshot (Finset.univ.filter fun i => (s.1 i).Present).card ∧
      s.2.2.clients = 2 := by
  have hrun : ((joins false ++ joins true).foldlM
      (guarded Undisturbed (serveStep Panel.kscreen sampleHost sampleSerde))
        (twoReporters (false, 1, 0))).map
        (fun s => (decide (∀ i, (s.1 i).status = .idle), s.2.2.clients)) = some (true, 2) := by
    decide +kernel
  obtain ⟨s, hs, hp⟩ := Option.map_eq_some_iff.1 hrun
  obtain ⟨hidle, hclients⟩ := Prod.mk.inj hp
  have h := run_guarded_iff.2 hs
  exact ⟨_, s, h, (status_shows_clients _ _ _ _ _ (by decide) _ s h).1 (of_decide_eq_true hidle),
    hclients⟩

end DdrdeskHost
