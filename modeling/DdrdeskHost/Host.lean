import DdrdeskHost.Display
import DdrdeskHost.Lib.Runs
import DdrdeskHost.Session

namespace DdrdeskHost
set_option autoImplicit true

/-- What all sessions share: the limiter, the `CLIENTS` counter and the display. -/
structure Shared (W : Type) where
  rate : RateLimit := .new
  clients : Nat := 0
  display : Display W

/-- `client_connected` on the `u32` counter. -/
def clientConnected (clients : Nat) : Nat := (clients + 1) % 2 ^ 32

/-- `client_disconnected`: the subtraction saturates. -/
def clientDisconnected (clients : Nat) : Nat := clients - 1

section
variable (K : Kscreen W) (H : HostState) (S : Serde)

/-- What a call does to the shared state; the answer in it must be the one that state gives. -/
def Shared.perform (g : Shared W) : Effect → Option (Shared W)
  | .allow addr now allowed =>
    let r := g.rate.allow addr now
    if r.2 = allowed then some { g with rate := r.1 } else none
  | .applyViewport vp enc =>
    let r := applyViewport K vp g.display
    if r.2 = enc then some { g with display := r.1 } else none
  | .applyUiScale factor => some { g with display := applyUiScale K factor g.display }
  | .setScreen w h =>
    let size := logicalSize K g.display.world
    if (max size.1 1, max size.2 1) = (w, h) then some g else none
  | .restore => some { g with display := restore K g.display }
  | .clientConnected => some { g with clients := clientConnected g.clients }
  | .clientDisconnected => some { g with clients := clientDisconnected g.clients }
  | .wrote .. | .captureStart .. | .dispatched _ | .input .. | .captureStop | .captureDrop => some g

/-- A session takes a step together with the calls in it. -/
def sessionStep (p : IpAddr × Conn) (g : Shared W) (e : Event) :
    Option ((IpAddr × Conn) × Shared W) :=
  (p.2.step H S p.1 e).bind fun r =>
    (r.2.foldlM (Shared.perform K) g).map fun g' => ((p.1, r.1), g')

/-- Any session takes its step, or the user or the session manager changes the world. -/
inductive HostEvent (ι : Type*) (W : Type)
  | turn (i : ι) (e : Event)
  | world (w : W)

def hostStep [DecidableEq ι] (s : (ι → IpAddr × Conn) × Shared W) :
    HostEvent ι W → Option ((ι → IpAddr × Conn) × Shared W)
  | .turn i e => takeTurn (sessionStep K H S) s (i, e)
  | .world w => some (s.1, { s.2 with display := { s.2.display with world := w } })

/-- The daemon has just started; each session will come from one of the addresses. -/
def hostStart {ι : Type*} (addr : ι → IpAddr) (d : Display W) : (ι → IpAddr × Conn) × Shared W :=
  (fun i => (addr i, {}), { display := d })

/-- The calls that a step makes, and the session that makes them. -/
def callsOf (s : (ι → IpAddr × Conn) × Shared W) : HostEvent ι W → List (ι × Effect)
  | .turn i e => (((s.1 i).2.step H S (s.1 i).1 e).elim [] Prod.snd).map (Prod.mk i)
  | .world _ => []

/-- A step together with the record of all calls made so far. -/
def hostTrace [DecidableEq ι] (t : ((ι → IpAddr × Conn) × Shared W) × List (ι × Effect))
    (e : HostEvent ι W) : Option (((ι → IpAddr × Conn) × Shared W) × List (ι × Effect)) :=
  (hostStep K H S t.1 e).map fun s => (s, t.2 ++ callsOf H S t.1 e)

end

theorem sessionStep_eq_some {K : Kscreen W} (h : sessionStep K H S p g e = some (p', g')) :
    ∃ es, p.2.step H S p.1 e = some (p'.2, es) ∧ es.foldlM (Shared.perform K) g = some g' := by
  obtain ⟨⟨c, es⟩, hc, h⟩ := Option.bind_eq_some_iff.1 h
  obtain ⟨g'', hg, he⟩ := Option.map_eq_some_iff.1 h
  cases he
  exact ⟨es, hc, hg⟩

theorem callsOf_turn {s : (ι → IpAddr × Conn) × Shared W} {i : ι}
    (h : (s.1 i).2.step H S (s.1 i).1 e = some (c, es)) :
    callsOf H S s (.turn i e) = es.map (Prod.mk i) := by
  simp only [callsOf, h, Option.elim_some]

theorem hostStep_turn_cases [DecidableEq ι] {K : Kscreen W} {s t : (ι → IpAddr × Conn) × Shared W}
    (h : hostStep K H S s (.turn i e) = some t) :
    ∃ c es g, (s.1 i).2.step H S (s.1 i).1 e = some (c, es) ∧
      es.foldlM (Shared.perform K) s.2 = some g ∧
      t = (Function.update s.1 i ((s.1 i).1, c), g) := by
  obtain ⟨r, hstep, rfl⟩ := Option.map_eq_some_iff.1 h
  obtain ⟨⟨c, es⟩, hc, hstep⟩ := Option.bind_eq_some_iff.1 hstep
  obtain ⟨g, hg, rfl⟩ := Option.map_eq_some_iff.1 hstep
  exact ⟨c, es, g, hc, hg, rfl⟩

/-- The steps of one session in a run of all of them. -/
def eventsOf [DecidableEq ι] (i : ι) (es : List (HostEvent ι W)) : List Event :=
  es.filterMap fun
    | .turn j e => if j = i then some e else none
    | .world _ => none

theorem eventsOf_append [DecidableEq ι] (i : ι) (es es' : List (HostEvent ι W)) :
    eventsOf i (es ++ es') = eventsOf i es ++ eventsOf i es' := List.filterMap_append

/-- Among all the others, each session runs as it would alone. -/
theorem session_runs_alone {K : Kscreen W} {H : HostState} {S : Serde} [DecidableEq ι]
    {addr : ι → IpAddr} {d : Display W} {es : List (HostEvent ι W)}
    (h : Run (Steps (hostStep K H S)) (hostStart addr d) es s) (i : ι) :
    (s.1 i).1 = addr i ∧
      ∃ log, Run (Steps (Conn.trace H S (addr i))) ({}, []) (eventsOf i es) ((s.1 i).2, log) := by
  apply h.invariant_trace (p := []) (I := fun es s => (s.1 i).1 = addr i ∧
    ∃ log, Run (Steps (Conn.trace H S (addr i))) ({}, []) (eventsOf i es) ((s.1 i).2, log))
  · rintro p s e t ⟨haddr, log, hrun⟩ hst
    rw [eventsOf_append]
    cases e with
    | world w =>
      cases hst
      have hnil : eventsOf i [(HostEvent.world w : HostEvent ι W)] = [] := rfl
      rw [hnil, List.append_nil]
      exact ⟨haddr, log, hrun⟩
    | turn j e =>
      obtain ⟨⟨p', g'⟩, hstep, rfl⟩ := Option.map_eq_some_iff.1 hst
      by_cases hj : j = i
      · subst hj
        have hone : eventsOf j [HostEvent.turn (W := W) j e] = [e] := by simp [eventsOf]
        obtain ⟨⟨c, effects⟩, hc, hstep⟩ := Option.bind_eq_some_iff.1 hstep
        obtain ⟨g'', hg, he⟩ := Option.map_eq_some_iff.1 hstep
        cases he
        rw [haddr] at hc
        have htrace := Conn.trace_eq hc log
        rw [hone]
        simp only [Function.update_self]
        exact ⟨haddr, log ++ effects, hrun.append (.single htrace)⟩
      · have hnil : eventsOf i [HostEvent.turn (W := W) j e] = [] := by simp [eventsOf, hj]
        rw [hnil, List.append_nil]
        simp only [Function.update_of_ne (Ne.symm hj)]
        exact ⟨haddr, log, hrun⟩
  · exact ⟨rfl, [], .nil _⟩

/-- The calls of one session. -/
def callsBy [DecidableEq ι] (i : ι) (log : List (ι × Effect)) : List Effect :=
  log.filterMap fun x => if x.1 = i then some x.2 else none

theorem callsBy_append [DecidableEq ι] (i : ι) (log log' : List (ι × Effect)) :
    callsBy i (log ++ log') = callsBy i log ++ callsBy i log' := List.filterMap_append

theorem callsBy_map [DecidableEq ι] (i j : ι) (es : List Effect) :
    callsBy i (es.map (Prod.mk j)) = if j = i then es else [] := by
  rw [callsBy, List.filterMap_map]
  by_cases hj : j = i
  · simp [hj]
  · simp [hj]

/-- In the log of the host, each session has the calls that it makes when it runs alone. -/
theorem session_calls {ι : Type*} [DecidableEq ι] {K : Kscreen W} {H : HostState} {S : Serde}
    {addr : ι → IpAddr} {d : Display W} {es : List (HostEvent ι W)}
    {t : ((ι → IpAddr × Conn) × Shared W) × List (ι × Effect)}
    (h : Run (Steps (hostTrace K H S)) (hostStart addr d, []) es t) (i : ι) :
    (t.1.1 i).1 = addr i ∧ Run (Steps (Conn.trace H S (addr i))) ({}, []) (eventsOf i es)
      ((t.1.1 i).2, callsBy i t.2) := by
  apply h.invariant_trace (p := []) (I := fun es t => (t.1.1 i).1 = addr i ∧
    Run (Steps (Conn.trace H S (addr i))) ({}, []) (eventsOf i es) ((t.1.1 i).2, callsBy i t.2))
  · rintro p t e u ⟨haddr, hrun⟩ hst
    obtain ⟨s, hs, rfl⟩ := Option.map_eq_some_iff.1 hst
    rw [eventsOf_append]
    cases e with
    | world w =>
      cases hs
      have hnil : eventsOf i [(HostEvent.world w : HostEvent ι W)] = [] := rfl
      rw [hnil, List.append_nil, callsOf, List.append_nil]
      exact ⟨haddr, hrun⟩
    | turn j e =>
      obtain ⟨c, effects, g, hc, -, rfl⟩ := hostStep_turn_cases hs
      rw [callsOf_turn hc, callsBy_append, callsBy_map]
      by_cases hj : j = i
      · subst hj
        have hone : eventsOf j [HostEvent.turn (W := W) j e] = [e] := by simp [eventsOf]
        rw [haddr] at hc
        have htrace := Conn.trace_eq hc (callsBy j t.2)
        rw [hone, if_pos rfl]
        simp only [Function.update_self]
        exact ⟨haddr, hrun.append (.single htrace)⟩
      · have hnil : eventsOf i [HostEvent.turn (W := W) j e] = [] := by simp [eventsOf, hj]
        rw [hnil, if_neg hj, List.append_nil, List.append_nil]
        simp only [Function.update_of_ne (Ne.symm hj)]
        exact ⟨haddr, hrun⟩
  · exact ⟨rfl, .nil _⟩

end DdrdeskHost
