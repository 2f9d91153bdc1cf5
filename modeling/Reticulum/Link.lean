import Reticulum.Bytes

/-! Links as their owner sees them (rns/link.go, rns/destination.go): the status, and who may make requests. -/

namespace Reticulum

inductive LinkStatus where
  | pending
  | handshake
  | active
  | stale
  | closed
deriving DecidableEq, Repr

namespace LinkStatus

/-- `HandleRTT` goes on only in these states. -/
def awaitsRTT : LinkStatus → Bool
  | pending | handshake => true
  | _ => false

def revive : LinkStatus → LinkStatus
  | stale => active
  | status => status

@[simp] theorem revive_eq_closed {status : LinkStatus} : status.revive = closed ↔ status = closed := by
  cases status <;> simp [revive]

end LinkStatus

inductive RequestPolicy where
  | allowNone
  | allowAll
  | allowList
deriving DecidableEq

structure RequestHandler where
  path : Bytes
  allow : RequestPolicy
  allowedList : List Bytes
deriving DecidableEq

/-- The allow check of `handleRequest`. An identity is known here by its hash. -/
def RequestHandler.allows (handler : RequestHandler) (remoteIdentity : Option Bytes) : Bool :=
  match handler.allow with
  | .allowNone => false
  | .allowAll => true
  | .allowList => remoteIdentity.any fun hash => hash ∈ handler.allowedList

end Reticulum
