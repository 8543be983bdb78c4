import Mathlib.Algebra.Group.Nat.Defs
import Mathlib.Logic.Function.Basic

namespace DdrdeskHost

inductive IpAddr
  | v4 (v : UInt32)
  | v6 (v : Fin (2 ^ 128))
  deriving DecidableEq

/-- `IpAddrKey`: either kind of address as a `u128`. -/
def IpAddr.key : IpAddr → Nat
  | .v4 v => v.toNat
  | .v6 v => v

/-- Instants and durations count nanoseconds. -/
def secs (n : Nat) : Nat := n * 1000000000

/-- The map from address keys to a count and the instant its window began. -/
structure RateLimit where
  hits : Nat → Option (Nat × Nat)

namespace RateLimit

def new : RateLimit := ⟨fun _ => none⟩

/-- `duration_since` saturates at zero, and the count is a `u32`. -/
def allow (r : RateLimit) (addr : IpAddr) (now : Nat) : RateLimit × Bool :=
  let hits := fun k => (r.hits k).filter fun e => now - e.2 < secs 60
  let e := (hits addr.key).getD (0, now)
  let e := if now - e.2 > secs 30 then (0, now) else e
  let e := ((e.1 + 1) % 2 ^ 32, e.2)
  (⟨Function.update hits addr.key (some e)⟩, decide (e.1 ≤ 8))

end RateLimit

end DdrdeskHost
