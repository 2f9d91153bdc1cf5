import Reticulum.Lxmf.Download
import Reticulum.Threads

/-! # The ways into the router, section by section (lxmf/router.go)

What is under the router's lock is one section, and the application's callback is called after the lock is released. The
rest of the program may change the router in any way between two sections, but for the IDs of delivered messages, which
no other function writes. -/

namespace Reticulum.Lxmf.Ingress

inductive Stage where
  -- The calls.
  | deliveryPacket (data : Bytes) (packet : Router.DeliveryPacket)
  | handleInboundResourceData (data : Bytes)
  | handlePropagatedInbound (payload : Bytes) (allowDuplicate : Bool)
  | ingestURI (lxmfData : Bytes) (allowDuplicate : Bool)
  | ingestPropagationMessage (lxmfData stampData : Bytes) (fromPeer : Option Bytes) (stampValue : Int)
      (allowDuplicate : Bool)
  | cleanTransientIDCaches
  /-- A section of the rest of the program. -/
  | elsewhere
  -- The later sections of these calls.
  | unpack (lxmfData : Bytes) (method : Method)
  | decrypt (payload : Bytes)
  | store (destinationHash lxmfData stampData : Bytes) (stampValue : Int) (fromPeer : Option Bytes)
  | handleInboundMessage (message : Message)
  | callback (message : Message)
  | markDelivered (transientID : Bytes)
deriving DecidableEq

def Stage.isCall : Stage → Bool
  | .deliveryPacket _ _ | .handleInboundResourceData _ | .handlePropagatedInbound _ _ | .ingestURI _ _
  | .ingestPropagationMessage _ _ _ _ _ | .cleanTransientIDCaches | .elsewhere => true
  | .unpack _ _ | .decrypt _ | .store _ _ _ _ _ | .handleInboundMessage _ | .callback _ | .markDelivered _ => false

structure Expiry where
  id : Bytes
  deliveredAt : Time
  now : Time
deriving DecidableEq

/-- The router, the messages that its callback has been called with, and the IDs that have expired. -/
structure Shared where
  router : Router
  calls : List Message := []
  expired : List Expiry := []

/-- What a section reads: the time, the result of `Decrypt`, and what the rest of the program makes of the router. -/
structure Input where
  now : Time
  decrypted : Option Bytes := none
  router : Option Router := none

/-- The state after a section, the sections that follow it, and those of the goroutine that it starts. -/
structure Outcome where
  shared : Shared
  next : List Stage := []
  started : List Stage := []

namespace Shared

def setRouter (s : Shared) (router : Router) : Shared := { s with router }

def cleanTransientIDCaches (s : Shared) : Shared :=
  let old := s.router.locallyDeliveredIDs.entries.filter fun e => s.router.now > e.2 + transientIDCacheExpiry
  { s with
    router := s.router.cleanTransientIDCaches
    expired := s.expired ++ old.map fun e => ⟨e.1, e.2, s.router.now⟩ }

end Shared

/-- The first section of the functions that take propagated messages: what follows is decided by the destination. -/
def takePropagated (s : Shared) (lxmfData : Bytes) (allowDuplicate : Bool) (next : Option (Option Destination) → List Stage) :
    Outcome :=
  if lxmfData.length < destinationLength then { shared := s }
  else if !allowDuplicate && s.router.isDuplicate (fullHash lxmfData) then { shared := s }
  else
    { shared := s.setRouter (s.router.markProcessed (fullHash lxmfData))
      next := next (s.router.deliveryDestinations.lookup (lxmfData.take destinationLength)) }

def Stage.exec (s : Shared) (input : Input) : Stage → Outcome
  | .deliveryPacket data arrived =>
    match arrived.lxmfData data with
    | none => { shared := s }
    | some (lxmfData, method) =>
      if s.router.isClosed then { shared := s } else { shared := s, started := [.unpack lxmfData method] }
  | .handleInboundResourceData data => if data = [] then { shared := s } else { shared := s, next := [.unpack data .direct] }
  | .handlePropagatedInbound payload allowDuplicate =>
    takePropagated s payload allowDuplicate fun
      | some (some _) => [.decrypt payload]
      | _ => []
  | .ingestURI lxmfData allowDuplicate =>
    takePropagated s lxmfData allowDuplicate fun
      | some (some _) => [.decrypt lxmfData]
      | some none => []
      | none =>
        if s.router.propagationEnabled then [.store (lxmfData.take destinationLength) lxmfData [] 0 none] else []
  | .ingestPropagationMessage lxmfData stampData fromPeer stampValue allowDuplicate =>
    takePropagated s lxmfData allowDuplicate fun
      | some _ => [.handlePropagatedInbound lxmfData allowDuplicate]
      | none =>
        if s.router.propagationEnabled then [.store (lxmfData.take destinationLength) lxmfData stampData stampValue fromPeer]
        else []
  | .cleanTransientIDCaches => { shared := s.cleanTransientIDCaches }
  | .elsewhere =>
    match input.router with
    | none => { shared := s }
    | some r => { shared := s.setRouter { r with locallyDeliveredIDs := s.router.locallyDeliveredIDs } }
  | .unpack lxmfData method =>
    match unpackMessageFromBytes s.router.transport lxmfData method with
    | none => { shared := s }
    | some message => { shared := s, next := [.handleInboundMessage message] }
  | .decrypt payload =>
    match input.decrypted.bind fun decrypted =>
      unpackMessageFromBytes s.router.transport (payload.take destinationLength ++ decrypted) .propagated with
    | none => { shared := s }
    | some message => { shared := s, next := [.handleInboundMessage message, .markDelivered (fullHash payload)] }
  | .store destinationHash lxmfData stampData stampValue fromPeer =>
    { shared := s.setRouter (s.router.storePropagationMessageStamped destinationHash lxmfData stampData stampValue
        fromPeer).router }
  | .handleInboundMessage message =>
    let handled := s.router.handleInboundMessage message
    { shared := s.setRouter handled.router
      next := handled.events.filterMap fun
        | .deliver message => some (.callback message)
        | _ => none }
  | .callback message => { shared := { s with calls := s.calls ++ [message] } }
  | .markDelivered transientID => { shared := s.setRouter (s.router.markDelivered transientID) }

def system : Threads.System Shared (List Stage) Input where
  entry stages := stages.all Stage.isCall
  exec
    | _, [], _ => none
    | s, stage :: rest, input =>
      let outcome := stage.exec (s.setRouter { s.router with now := input.now }) input
      some (outcome.shared, [outcome.next ++ rest, outcome.started])

def idle (r : Router) : Threads.Config Shared (List Stage) := ⟨{ router := r }, []⟩

end Reticulum.Lxmf.Ingress
