import Reticulum.Locks

/-! # The router's lock and the transport's lock

`ProcessOutbound` (lxmf/router.go) holds `r.mu` while it calls the transport, whose functions take `ts.mu`.
`processInboundPacket` (rns/transport.go) holds `ts.mu` while it matches a proof against the open receipts, whose
delivery callbacks (rns/packet.go) take `r.mu` if they are the router's. The application's own callbacks take neither
lock. -/

namespace Reticulum.Lxmf
open Locks

inductive Mutex where
  | router
  | transport
deriving DecidableEq, Repr

/-- What a pass of `ProcessOutbound` does under `r.mu`. A function of the transport takes and releases `ts.mu`.
    `Outbound` hands a packet for a local destination straight to it; if it is one of the router's, `deliveryPacket`
    takes `r.mu`. -/
inductive PassSection where
  | transport
  | deliveryPacket
deriving DecidableEq, Repr

inductive Operation where
  /-- `ProcessOutbound`: `ProcessDeferredStamps` takes locks one at a time, then comes the pass. -/
  | processOutbound (deferredStamps : List Mutex) (pass : List PassSection)
  /-- Proof matching: for each receipt that the proof validates, whether its callback is the router's. -/
  | matchProof (receipts : List Bool)
deriving DecidableEq, Repr

def within (m : Mutex) : List (Op Mutex) := [.lock m, .unlock m]

def PassSection.ops : PassSection → List (Op Mutex)
  | .transport => within .transport
  | .deliveryPacket => within .router

def receiptOps (routers : Bool) : List (Op Mutex) := if routers then within .router else []

def Operation.program : Operation → List (Op Mutex)
  | processOutbound deferredStamps pass =>
    deferredStamps.flatMap within ++ .lock .router :: (pass.flatMap PassSection.ops ++ [.unlock .router])
  | matchProof receipts => .lock .transport :: (receipts.flatMap receiptOps ++ [.unlock .transport])

abbrev Goroutine := Thread Mutex Operation

def Operation.goroutine (op : Operation) : Goroutine := ⟨op, ∅, op.program⟩

def locking : Threads.System (Finset Mutex) Goroutine Unit := Locks.system Operation.program

end Reticulum.Lxmf
