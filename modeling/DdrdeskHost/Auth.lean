import DdrdeskHost.SelectLoop

namespace DdrdeskHost
set_option autoImplicit true

section
variable (H : HostState) (S : Serde) (addr : IpAddr)

/-- A connection that presents one ClientHello, up to the host's first answer. -/
def handshake (r : RateLimit) (now : Nat) (payload : List UInt8) (a : Answer) :
    Option (Conn × List Effect) :=
  let a := { a with allowed := (r.allow addr now).2, now := now }
  [.arrive (writeFrame Proto.clientHello payload), .read a, .next a, .next a].foldlM
    (Conn.trace H S addr) ({}, [])

/-- The limiter after the calls of a session. -/
def RateLimit.after (r : RateLimit) (es : List Effect) : RateLimit :=
  es.foldl (fun r e => match e with
    | .allow addr now _ => (r.allow addr now).1
    | _ => r) r

/-- The limiter after a history of attempts, each with its time, payload and answers. -/
def limiterAfter (history : List (Nat × List UInt8 × Answer)) : RateLimit :=
  history.foldl (fun r t =>
    r.after (((handshake H S addr r t.1 t.2.1 t.2.2).map (·.2)).getD [])) .new

/-- What the peer can see: the frames written, and whether a session started. -/
def observed (es : List Effect) : List (UInt8 × List UInt8 × Write) × Bool :=
  (es.filterMap fun
      | .wrote typ payload w => some (typ, payload, w)
      | _ => none,
    es.any fun
      | .applyViewport _ _ => true
      | _ => false)

def reaction (r : RateLimit) (now : Nat) (payload : List UInt8) (a : Answer) :
    Option (List (UInt8 × List UInt8 × Write) × Bool) :=
  (handshake H S addr r now payload a).map fun t => observed t.2

end

section
variable {H : HostState} {S : Serde} {addr : IpAddr} {r : RateLimit} {now : Nat}
  {payload : List UInt8} {hello : ClientHello}

theorem handshake_eq (hfit : 1 + payload.length ≤ maxFrame)
    (hs : S.clientHello payload = some hello) (a : Answer) :
    handshake H S addr r now payload a =
      [.next { a with allowed := (r.allow addr now).2, now := now },
        .next { a with allowed := (r.allow addr now).2, now := now }].foldlM (Conn.trace H S addr)
        ({ phase := if hello.id = H.id then .authenticated hello.viewport else .rejected },
          []) := by
  have hpoll : (ReadFut.lenb []).poll (writeFrame Proto.clientHello payload) =
      .ready (Proto.clientHello, payload) [] := by
    simpa only [List.append_nil] using poll_writeFrame hfit []
  have hon : onFrame H S (Proto.clientHello, payload)
      { a with allowed := (r.allow addr now).2, now := now } .hello =
      some (if hello.id = H.id then .authenticated hello.viewport else .rejected, []) := by
    rw [onFrame, onHello_eq hs]
  have harrive : Conn.step H S addr {} (.arrive (writeFrame Proto.clientHello payload)) =
      some ({ arrived := writeFrame Proto.clientHello payload }, []) :=
    Conn.step_arrive (c := {}) (by simp) rfl _
  have hread : Conn.step H S addr { arrived := writeFrame Proto.clientHello payload }
      (.read { a with allowed := (r.allow addr now).2, now := now }) =
      some ({ phase := if hello.id = H.id then .authenticated hello.viewport else .rejected },
        []) := Conn.step_ready hpoll hon
  rw [handshake, List.foldlM_cons, Conn.trace_eq harrive, Option.bind_eq_bind, Option.bind_some,
    List.foldlM_cons, Conn.trace_eq hread]
  rfl

theorem handshake_accepted (hfit : 1 + payload.length ≤ maxFrame)
    (hs : S.clientHello payload = some hello) (hid : hello.id = H.id) (a : Answer) :
    (handshake H S addr r now payload a).map (·.2) =
      some [.applyViewport hello.viewport a.enc, .wrote Proto.serverHello (S.serverHello
        { ok := true, name := H.hostname, fp := H.fingerprint, endpoints := H.endpoints,
          screenW := a.enc.1, screenH := a.enc.2, session := a.token }) a.write] := by
  rw [handshake_eq hfit hs, if_pos hid, List.foldlM_cons, Conn.trace_eq (Conn.step_next rfl),
    Option.bind_eq_bind, Option.bind_some, List.foldlM_cons]
  -- the reply is written in either case, whether or not the write succeeds
  cases hw : a.write with
  | done =>
    rw [Conn.trace_eq (Conn.step_next rfl)]
    rfl
  | failed n =>
    rw [Conn.trace_eq (Conn.step_next rfl)]
    rfl

theorem handshake_refused (hfit : 1 + payload.length ≤ maxFrame)
    (hs : S.clientHello payload = some hello) (hid : hello.id ≠ H.id) (a : Answer) :
    (handshake H S addr r now payload a).map (·.2) =
      some [.allow addr now (r.allow addr now).2, .wrote Proto.authFail (S.authFail
        { error := if (r.allow addr now).2 then "bad_id" else "rate_limited" }) a.write] := by
  rw [handshake_eq hfit hs, if_neg hid, List.foldlM_cons, Conn.trace_eq (Conn.step_next rfl),
    Option.bind_eq_bind, Option.bind_some, List.foldlM_cons, Conn.trace_eq (Conn.step_next rfl)]
  rfl

theorem reaction_eq_map (r : RateLimit) (now : Nat) (payload : List UInt8) (a : Answer) :
    reaction H S addr r now payload a =
      ((handshake H S addr r now payload a).map (·.2)).map observed := by
  rw [reaction, Option.map_map]
  rfl

end

/-- Once the limiter refuses an address, every wrong ID is answered with the same frame; but two
candidate IDs are answered alike only if both or neither of them is the host's ID. -/
theorem rate_limited_reaction (H : HostState) (S : Serde) (addr : IpAddr)
    (history : List (Nat × List UInt8 × Answer)) (now : Nat) (a : Answer)
    (p₁ p₂ : List UInt8) (h₁ h₂ : ClientHello)
    (hfit₁ : 1 + p₁.length ≤ maxFrame) (hfit₂ : 1 + p₂.length ≤ maxFrame)
    (hs₁ : S.clientHello p₁ = some h₁) (hs₂ : S.clientHello p₂ = some h₂)
    (hlimit : ((limiterAfter H S addr history).allow addr now).2 = false) :
    (h₁.id ≠ H.id → reaction H S addr (limiterAfter H S addr history) now p₁ a =
      some ([(Proto.authFail, S.authFail { error := "rate_limited" }, a.write)], false)) ∧
    (reaction H S addr (limiterAfter H S addr history) now p₁ a =
        reaction H S addr (limiterAfter H S addr history) now p₂ a ↔
      (h₁.id = H.id ↔ h₂.id = H.id)) := by
  have hno {p : List UInt8} {h : ClientHello} (hfit : 1 + p.length ≤ maxFrame)
      (hs : S.clientHello p = some h) (hid : h.id ≠ H.id) :
      reaction H S addr (limiterAfter H S addr history) now p a =
        some ([(Proto.authFail, S.authFail { error := "rate_limited" }, a.write)], false) := by
    rw [reaction_eq_map, handshake_refused hfit hs hid, hlimit]
    rfl
  have hyes {p : List UInt8} {h : ClientHello} (hfit : 1 + p.length ≤ maxFrame)
      (hs : S.clientHello p = some h) (hid : h.id = H.id) :
      reaction H S addr (limiterAfter H S addr history) now p a =
        some ([(Proto.serverHello, S.serverHello
          { ok := true, name := H.hostname, fp := H.fingerprint, endpoints := H.endpoints,
            screenW := a.enc.1, screenH := a.enc.2, session := a.token }, a.write)], true) := by
    rw [reaction_eq_map, handshake_accepted hfit hs hid]
    rfl
  constructor
  · exact hno hfit₁ hs₁
  · by_cases hid₁ : h₁.id = H.id <;> by_cases hid₂ : h₂.id = H.id
    · rw [hyes hfit₁ hs₁ hid₁, hyes hfit₂ hs₂ hid₂]
      simp only [hid₁, hid₂]
    · rw [hyes hfit₁ hs₁ hid₁, hno hfit₂ hs₂ hid₂]
      simp [hid₁, hid₂]
    · rw [hno hfit₁ hs₁ hid₁, hyes hfit₂ hs₂ hid₂]
      simp [hid₁, hid₂]
    · rw [hno hfit₁ hs₁ hid₁, hno hfit₂ hs₂ hid₂]
      simp only [hid₁, hid₂]

/-- A JSON library that reads one payload as a ClientHello with the host's ID, all others with a
wrong one. -/
def sampleSerde : Serde :=
  { noSerde with
    clientHello := fun p => some ⟨if p = [1] then "582914337" else "000000000", 2556, 1179, 852,
      393, 3, "landscape"⟩ }

/-- After eight wrong IDs the address is refused, and yet the host's ID still starts a session. -/
theorem rate_limited_reaction_differs :
    ¬∀ (H : HostState) (S : Serde) (addr : IpAddr) (history : List (Nat × List UInt8 × Answer))
      (now : Nat) (a : Answer) (p₁ p₂ : List UInt8) (h₁ h₂ : ClientHello),
      1 + p₁.length ≤ maxFrame → 1 + p₂.length ≤ maxFrame →
      S.clientHello p₁ = some h₁ → S.clientHello p₂ = some h₂ →
      ((limiterAfter H S addr history).allow addr now).2 = false →
      reaction H S addr (limiterAfter H S addr history) now p₁ a =
        reaction H S addr (limiterAfter H S addr history) now p₂ a := by
  intro h
  have heq := h sampleHost sampleSerde (.v4 0) (List.replicate 8 (0, [], {})) 0 {} [1] [2] _ _
    (by decide) (by decide) rfl rfl (by decide +kernel)
  exact absurd heq (by decide +kernel)

theorem rate_limited_reaction_wrong :
    reaction sampleHost sampleSerde (.v4 0)
        (limiterAfter sampleHost sampleSerde (.v4 0) (List.replicate 8 (0, [], {}))) 0 [2] {} =
      some ([(Proto.authFail, [], .done)], false) :=
  (rate_limited_reaction sampleHost sampleSerde (.v4 0) (List.replicate 8 (0, [], {})) 0 {}
    [2] [3] _ _ (by decide) (by decide) rfl rfl (by decide +kernel)).1 (by decide)

end DdrdeskHost
