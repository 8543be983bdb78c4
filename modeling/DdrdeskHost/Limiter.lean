import DdrdeskHost.Lib.Window
import DdrdeskHost.RateLimit

namespace DdrdeskHost
set_option autoImplicit true

/-- The times of an address's calls. -/
def timesOf (v : UInt32) (cs : List (UInt32 × Nat)) : List Nat :=
  (cs.filter fun c => c.1 = v).map Prod.snd

/-- The results of an address's calls. -/
def resultsOf (v : UInt32) (rs : List (UInt32 × Nat × Bool)) : List (Nat × Bool) :=
  (rs.filter fun x => x.1 = v).map Prod.snd

/-- No address calls 2^32 times within one window, so that no count wraps. -/
def CountsFit (cs : List (UInt32 × Nat)) : Prop :=
  ∀ v ts e, ts <+: timesOf v cs → Window.after (secs 30) none ts = some e → e.1 < 2 ^ 32

/-- What the shared map holds of a private window: all of it, or nothing once it is stale. -/
def Tracks (last : Nat) (m w : Option (Nat × Nat)) : Prop :=
  m = w ∨ m = none ∧ ∃ e, w = some e ∧ secs 60 ≤ last - e.2

namespace RateLimit

/-- Calls of `allow` from IPv4 addresses, each with its result; the listener binds 0.0.0.0. -/
def results : RateLimit → List (UInt32 × Nat) → List (UInt32 × Nat × Bool)
  | _, [] => []
  | r, c :: cs => (c.1, c.2, (r.allow (.v4 c.1) c.2).2) :: (r.allow (.v4 c.1) c.2).1.results cs

/-- The limiter after these calls. -/
def afterCalls (r : RateLimit) (cs : List (UInt32 × Nat)) : RateLimit :=
  cs.foldl (fun r c => (r.allow (.v4 c.1) c.2).1) r

/-- What `retain` leaves of an entry. -/
def retained (now : Nat) (m : Option (Nat × Nat)) : Option (Nat × Nat) :=
  m.filter fun e => now - e.2 < secs 60

/-- The entry that `allow` stores for the caller. -/
def counted (now : Nat) (m : Option (Nat × Nat)) : Nat × Nat :=
  let e := (retained now m).getD (0, now)
  let e := if now - e.2 > secs 30 then (0, now) else e
  ((e.1 + 1) % 2 ^ 32, e.2)

theorem retained_fresh (h : now - e.2 < secs 60) : retained now (some e) = some e :=
  if_pos (decide_eq_true h)

theorem retained_stale (h : ¬now - e.2 < secs 60) : retained now (some e) = none :=
  if_neg fun hd => h (of_decide_eq_true hd)

theorem retained_eq_some (h : retained now m = some e) : m = some e ∧ now - e.2 < secs 60 := by
  obtain ⟨hm, he⟩ := Option.filter_eq_some_iff.1 h
  exact ⟨hm, of_decide_eq_true he⟩

theorem allow_own (r : RateLimit) (addr : IpAddr) (now : Nat) :
    (r.allow addr now).1.hits addr.key = some (counted now (r.hits addr.key)) := by
  simp only [allow, Function.update_self]
  rfl

theorem allow_result (r : RateLimit) (addr : IpAddr) (now : Nat) :
    (r.allow addr now).2 = decide ((counted now (r.hits addr.key)).1 ≤ 8) := rfl

theorem allow_other (r : RateLimit) (now : Nat) (hk : k ≠ addr.key) :
    (r.allow addr now).1.hits k = retained now (r.hits k) := by
  simp only [allow, Function.update_of_ne hk]
  rfl

theorem counted_none (now : Nat) : counted now none = (1, now) := by
  simp [counted, retained]

theorem counted_some (hc : (Window.tick (secs 30) (some e) now).1 < 2 ^ 32) :
    counted now (some e) = Window.tick (secs 30) (some e) now := by
  by_cases h30 : now ≤ e.2 + secs 30
  · have h60 : now - e.2 < secs 60 := by
      unfold secs at h30 ⊢
      omega
    have hle : ¬now - e.2 > secs 30 := by omega
    rw [Window.tick_in_window h30] at hc ⊢
    simp only [counted, retained_fresh h60, Option.getD_some, hle, ↓reduceIte,
      Nat.mod_eq_of_lt hc]
  · have hgt : now - e.2 > secs 30 := by omega
    rw [Window.tick_restart (Nat.lt_of_not_le h30), counted]
    cases hm : retained now (some e) with
    | none => simp
    | some e' =>
      obtain ⟨he, -⟩ := retained_eq_some hm
      cases he
      simp [hgt]

theorem counted_began (now : Nat) (m : Option (Nat × Nat)) :
    (counted now m).2 = now ∨ ∃ e, retained now m = some e ∧ (counted now m).2 = e.2 := by
  rw [counted]
  cases hm : retained now m with
  | none => simp
  | some e =>
    simp only [Option.getD_some]
    split
    · exact .inl rfl
    · exact .inr ⟨e, rfl, rfl⟩

theorem allow_entry {r : RateLimit} (h : (r.allow addr now).1.hits k = some e) :
    e.2 = now ∨ ∃ e', retained now (r.hits k) = some e' ∧ e.2 = e'.2 := by
  by_cases hk : k = addr.key
  · subst hk
    rw [allow_own] at h
    cases h
    exact counted_began now _
  · rw [allow_other r now hk] at h
    exact .inr ⟨e, h, rfl⟩

theorem afterCalls_began {r : RateLimit} {cs : List (UInt32 × Nat)} (hc : ∀ c ∈ cs, c.2 ≤ b)
    (hr : ∀ k e, r.hits k = some e → e.2 ≤ b) :
    ∀ k e, (r.afterCalls cs).hits k = some e → e.2 ≤ b := by
  induction cs generalizing r with
  | nil => exact hr
  | cons c cs ih =>
    apply ih fun d hd => hc d (List.mem_cons_of_mem _ hd)
    intro k e he
    rcases allow_entry he with h | ⟨e', he', h⟩
    · rw [h]
      exact hc c List.mem_cons_self
    · rw [h]
      exact hr k e' (retained_eq_some he').1

end RateLimit

open RateLimit

theorem Tracks.counted (h : Tracks last m w) (hle : last ≤ now)
    (hc : (Window.tick (secs 30) w now).1 < 2 ^ 32) :
    counted now m = Window.tick (secs 30) w now := by
  rcases h with rfl | ⟨rfl, e, rfl, hstale⟩
  · cases m with
    | none => exact counted_none now
    | some e => exact counted_some hc
  · have h30 : e.2 + secs 30 < now := by
      unfold secs at hstale ⊢
      omega
    rw [counted_none, Window.tick_restart h30]

theorem Tracks.retained (h : Tracks last m w) (hle : last ≤ now) :
    Tracks now (retained now m) w := by
  rcases h with rfl | ⟨rfl, e, rfl, hstale⟩
  · cases m with
    | none => exact .inl rfl
    | some e =>
      by_cases h60 : now - e.2 < secs 60
      · exact .inl (retained_fresh h60)
      · exact .inr ⟨retained_stale h60, e, rfl, Nat.le_of_not_lt h60⟩
  · exact .inr ⟨rfl, e, rfl, Nat.le_trans hstale (Nat.sub_le_sub_right hle _)⟩

/-- A private window restarts where the shared entry does; between them lie other addresses. -/
theorem results_tracks {r : RateLimit} (hs : (cs.map Prod.snd).Pairwise (· ≤ ·))
    (hlast : ∀ c ∈ cs, last ≤ c.2) (h : Tracks last (r.hits v.toNat) w)
    (hfit : ∀ ts e, ts <+: timesOf v cs → Window.after (secs 30) w ts = some e → e.1 < 2 ^ 32) :
    resultsOf v (r.results cs) = Window.results (secs 30) 8 w (timesOf v cs) := by
  induction cs generalizing r w last with
  | nil => rfl
  | cons c cs ih =>
    obtain ⟨v', now⟩ := c
    obtain ⟨hnow, hs⟩ := List.pairwise_cons.1 hs
    have hle : last ≤ now := hlast _ List.mem_cons_self
    have hlast' : ∀ c ∈ cs, now ≤ c.2 := by
      intro c hc
      exact hnow c.2 (List.mem_map_of_mem hc)
    by_cases hv : v' = v
    · subst hv
      have htimes : timesOf v' ((v', now) :: cs) = now :: timesOf v' cs := by simp [timesOf]
      rw [htimes] at hfit ⊢
      have htick : (Window.tick (secs 30) w now).1 < 2 ^ 32 := by
        have hpre : [now] <+: now :: timesOf v' cs := ⟨timesOf v' cs, rfl⟩
        exact hfit [now] _ hpre rfl
      have hcounted := h.counted hle htick
      have hnext : Tracks now ((r.allow (.v4 v') now).1.hits v'.toNat)
          (some (Window.tick (secs 30) w now)) := by
        have hown := allow_own r (.v4 v') now
        rw [IpAddr.key, hcounted] at hown
        exact .inl hown
      have hres := ih hs hlast' hnext fun ts e hts he =>
        hfit (now :: ts) e (List.cons_prefix_cons.2 ⟨rfl, hts⟩) he
      have hallow := allow_result r (.v4 v') now
      rw [IpAddr.key, hcounted] at hallow
      rw [Window.results, ← hres]
      simp [results, resultsOf, hallow]
    · have htimes : timesOf v ((v', now) :: cs) = timesOf v cs := by simp [timesOf, hv]
      have hkey : v.toNat ≠ (IpAddr.v4 v').key := by
        intro hk
        exact hv (UInt32.toNat_inj.1 hk.symm)
      have hnext : Tracks now ((r.allow (.v4 v') now).1.hits v.toNat) w := by
        rw [allow_other r now hkey]
        exact h.retained hle
      rw [htimes] at hfit ⊢
      rw [← ih hs hlast' hnext hfit]
      simp [results, resultsOf, hv]

/-- Each address meets a limiter of its own, which never evicts; what other addresses call makes no
difference to it; and the map holds windows of less than 60 s only. -/
theorem eviction_invisible (cs : List (UInt32 × Nat)) (hs : (cs.map Prod.snd).Pairwise (· ≤ ·))
    (hfit : CountsFit cs) :
    (∀ v, resultsOf v (RateLimit.new.results cs) =
      Window.results (secs 30) 8 none (timesOf v cs)) ∧
    (∀ v cs', (cs'.map Prod.snd).Pairwise (· ≤ ·) → timesOf v cs' = timesOf v cs →
      resultsOf v (RateLimit.new.results cs') = resultsOf v (RateLimit.new.results cs)) ∧
    ∀ p v now q, cs = p ++ (v, now) :: q → ∀ k e,
      (RateLimit.new.afterCalls (p ++ [(v, now)])).hits k = some e →
        e.2 ≤ now ∧ now - e.2 < secs 60 := by
  have hown : ∀ v cs', (cs'.map Prod.snd).Pairwise (· ≤ ·) → timesOf v cs' = timesOf v cs →
      resultsOf v (RateLimit.new.results cs') =
        Window.results (secs 30) 8 none (timesOf v cs') := by
    intro v cs' hs' ht
    apply results_tracks hs' (fun c _ => Nat.zero_le c.2) (.inl rfl)
    intro ts e hts he
    exact hfit v ts e (ht ▸ hts) he
  refine ⟨fun v => hown v cs hs rfl, ?_, ?_⟩
  · intro v cs' hs' ht
    rw [hown v cs' hs' ht, hown v cs hs rfl, ht]
  · intro p v now q hcs k e he
    rw [afterCalls, List.foldl_append] at he
    have hp : ∀ c ∈ p, c.2 ≤ now := by
      intro c hc
      rw [hcs, List.map_append, List.pairwise_append] at hs
      exact hs.2.2 c.2 (List.mem_map_of_mem hc) now List.mem_cons_self
    rcases allow_entry he with h | ⟨e', he', h⟩
    · rw [h, Nat.sub_self]
      exact ⟨Nat.le_refl now, by decide⟩
    · obtain ⟨hmem, hfresh⟩ := retained_eq_some he'
      rw [h]
      exact ⟨afterCalls_began hp (by simp [RateLimit.new]) k e' hmem, hfresh⟩

/-- Two addresses; the first one's entry is evicted by the second one's call. -/
def evictingCalls : List (UInt32 × Nat) := [(1, 0), (2, secs 70), (1, secs 71)]

theorem CountsFit.of_length (h : cs.length < 2 ^ 32) : CountsFit cs := by
  intro v ts e hts he
  have hle := Window.after_le he
  have htimes : ts.length ≤ cs.length := by
    apply Nat.le_trans hts.length_le
    rw [timesOf, List.length_map]
    exact List.length_filter_le _ _
  simp only [Option.map_none, Option.getD_none] at hle
  omega

theorem eviction_invisible_evicting :
    resultsOf 1 (RateLimit.new.results evictingCalls) = [(0, true), (secs 71, true)] :=
  (eviction_invisible evictingCalls (by decide) (CountsFit.of_length (by decide))).1 1

/-- No more than fifteen calls of an address are allowed in any 30 s. -/
theorem attempts_in_interval (cs : List (UInt32 × Nat))
    (hs : (cs.map Prod.snd).Pairwise (· ≤ ·)) (hfit : CountsFit cs) (v : UInt32) (a : Nat) :
    Window.granted (resultsOf v (RateLimit.new.results cs)) a (a + secs 30) ≤ 15 := by
  have htimes : (timesOf v cs).Pairwise (· ≤ ·) :=
    hs.sublist (List.filter_sublist.map Prod.snd)
  rw [results_tracks hs (fun c _ => Nat.zero_le c.2) (.inl rfl) (hfit v)]
  exact Window.granted_le htimes (Nat.le_refl _)

/-- One call begins a window, seven end it, and eight more follow in the next one. -/
def straddlingCalls : List (UInt32 × Nat) :=
  (1, 0) :: List.replicate 7 (1, secs 30) ++ List.replicate 8 (1, secs 30 + 1)

example : Window.granted (resultsOf 1 (RateLimit.new.results straddlingCalls)) (secs 30)
    (secs 30 + secs 30) = 15 := by decide +kernel

theorem attempts_exceed_eight :
    ¬∀ (cs : List (UInt32 × Nat)), (cs.map Prod.snd).Pairwise (· ≤ ·) → ∀ v a,
      Window.granted (resultsOf v (RateLimit.new.results cs)) a (a + secs 30) ≤ 8 := by
  intro h
  have h15 := h straddlingCalls (by decide) 1 (secs 30)
  exact absurd h15 (by decide +kernel)

theorem attempts_in_interval_straddling :
    Window.granted (resultsOf 1 (RateLimit.new.results straddlingCalls)) (secs 30)
      (secs 30 + secs 30) ≤ 15 :=
  attempts_in_interval straddlingCalls (by decide) (CountsFit.of_length (by decide)) 1 (secs 30)

end DdrdeskHost
