import Reticulum.Lxmf.Router
import Reticulum.Text
import Reticulum.Transitions

/-! # Downloading messages from a propagation node (lxmf/router.go)

The node answers the first request with the IDs of the messages it has. The client asks for those that it has not
delivered and names the others, which the node deletes. The states that are shown to the user are left out. -/

namespace Reticulum.Lxmf

open Msgpack (Value)
open Text (ascii)

def peerErrorNoIdentity : Int64 := 0xf0

def peerErrorNoAccess : Int64 := 0xf1

def transientIDCacheExpiry : Int := 30 * 24 * 3600 * 1000000000 * 6

/-- How many messages the client asks for (0 for all), and whether delivered ones stay on the node. -/
structure DownloadOptions where
  maxMessages : Int := 0
  retainSynced : Bool := false
deriving DecidableEq, Repr

structure MessageGetRequest where
  wants : List Value := []
  haves : List Bytes := []
deriving DecidableEq

def responseErrorCode : Value → Option Int64
  | .int i => some i
  | .uint n => if n.toNat < 2 ^ 63 then some n.toInt64 else none
  | _ => none

def responseBytes : Value → Option Bytes
  | .bin b => some b
  | _ => none

/-- `unhashableMessageListEntryPanic`. -/
def unhashablePanic : Value → Option Bytes
  | .map _ => some (ascii "unhashable type: 'dict'")
  | .array _ => some (ascii "unhashable type: 'list'")
  | _ => none

def entryPanic : Value → Bytes
  | .str _ | .raw _ => ascii "Strings must be encoded before hashing"
  | _ => ascii "object supporting the buffer API required"

/-- The entries of a response to a message get request; otherwise the response is refused, with or without a panic. -/
def messageGetEntries (response : Value) : Except (Option Bytes) (List Value) :=
  if responseErrorCode response = some peerErrorNoIdentity ∨ responseErrorCode response = some peerErrorNoAccess then
    .error none
  else
    match response with
    | .nil => .error (some (ascii "object of type 'NoneType' has no len()"))
    | .bool _ => .error (some (ascii "object of type 'bool' has no len()"))
    | .int _ | .uint _ => .error (some (ascii "object of type 'int' has no len()"))
    | .float32 _ | .float64 _ => .error (some (ascii "object of type 'float' has no len()"))
    | .ext _ _ => .error (some (ascii "object of type 'struct' has no len()"))
    | .str s | .raw s => if s = [] then .ok [] else .error (some (ascii "Strings must be encoded before hashing"))
    | .bin b => if b = [] then .ok [] else .error (some (ascii "object supporting the buffer API required"))
    | .array items => .ok items
    | .map entries => .ok (entries.map (·.1))

namespace Router

/-- `cleanTransientIDCachesLocked`. -/
def cleanTransientIDCaches (r : Router) : Router :=
  let expired (table : Table Time) : Table Time :=
    table.entries.foldl (fun kept e => if r.now > e.2 + transientIDCacheExpiry then kept.erase e.1 else kept) table
  { r with
    locallyDeliveredIDs := expired r.locallyDeliveredIDs
    locallyProcessedIDs := expired r.locallyProcessedIDs }

def listEntries (r : Router) (options : DownloadOptions) (request : MessageGetRequest) : List Value → MessageGetRequest
  | [] => request
  | entry :: rest =>
    let known := (responseBytes entry).filter r.hasDeliveredTransientID
    let request : MessageGetRequest :=
      match known with
      | some id => if options.retainSynced then request else { request with haves := request.haves ++ [id] }
      | none =>
        if options.maxMessages = 0 ∨ (request.wants.length : Int) < options.maxMessages then
          { request with wants := request.wants ++ [entry] }
        else request
    listEntries r options request rest

def messageListResponse (r : Router) (options : DownloadOptions) (response : Value) :
    Except Bytes (Option MessageGetRequest) :=
  match response with
  | .array items =>
    -- A list of byte strings is told apart only for an empty list, which ends the transfer.
    if items = [] then .ok none
    else
      match items.findSome? unhashablePanic with
      | some panic => .error panic
      | none => .ok (some (r.listEntries options {} items))
  -- An error code, and what is not a list.
  | _ => .ok none

def getEntries (r : Router) : List Value → Result (Except Bytes (Nat × List Bytes))
  | [] => ⟨.ok (0, []), r, []⟩
  | entry :: rest =>
    match responseBytes entry with
    | none => ⟨.error (entryPanic entry), r, []⟩
    | some payload =>
      let handled := r.handlePropagatedInbound payload
      let others := handled.router.getEntries rest
      ⟨others.value.map fun (duplicates, haves) => (handled.value.toNat + duplicates, fullHash payload :: haves),
        others.router, handled.events ++ others.events⟩

/-- `messageGetResponse`: the IDs that it acknowledges, or the panic. -/
def messageGetResponse (r : Router) (response : Value) : Result (Except Bytes (List Bytes)) :=
  match messageGetEntries response with
  | .error none => ⟨.ok [], r, []⟩
  | .error (some panic) => ⟨.error panic, r, []⟩
  | .ok entries =>
    let handled := r.getEntries entries
    match handled.value with
    | .error panic => ⟨.error panic, handled.router, handled.events⟩
    -- The caches are cleaned before they are saved.
    | .ok (_, haves) => ⟨.ok haves, handled.router.cleanTransientIDCaches, handled.events⟩

end Router

/-- A call of `handleInboundMessage`, and the transient ID of the data that the message was decrypted from. -/
structure InboundCall where
  transientID : Option Bytes
  message : Message
deriving DecidableEq

def inboundCalls (transientID : Option Bytes) (events : List Event) : List InboundCall :=
  events.filterMap fun
    | .inbound message => some { transientID, message }
    | _ => none

structure Client where
  router : Router
  calls : List InboundCall := []

namespace Client

inductive Action where
  | getResponse (response : Value)
  | ingestURI (lxmfData : Bytes)
  | deliveryPacket (data : Bytes) (packet : Router.DeliveryPacket)
  | resource (data : Bytes)
  | propagationPacket (messages : List Bytes)
  | propagationResource (peer : Option Bytes) (messages : List Bytes)
  | cleanCaches
  | tick (now : Time)
deriving DecidableEq

/-- The calls of the loop of `messageGetResponse`. -/
def getCalls (r : Router) : List Value → List InboundCall
  | [] => []
  | entry :: rest =>
    match responseBytes entry with
    | none => []
    | some payload =>
      let handled := r.handlePropagatedInbound payload
      inboundCalls (some (fullHash payload)) handled.events ++ getCalls handled.router rest

def afterGet (c : Client) (response : Value) : Client where
  router := (c.router.messageGetResponse response).router
  calls := c.calls ++
    match messageGetEntries response with
    | .error _ => []
    | .ok entries => getCalls c.router entries

def step (c : Client) : Action → Option Client
  | .getResponse response => some (c.afterGet response)
  | .ingestURI lxmfData =>
    let handled := c.router.ingestURIOutcome lxmfData false
    some ⟨handled.router, c.calls ++ inboundCalls (some (fullHash lxmfData)) handled.events⟩
  | .deliveryPacket data packet =>
    let handled := c.router.deliveryPacket data packet
    some ⟨handled.router, c.calls ++ inboundCalls none handled.events⟩
  | .resource data =>
    let handled := c.router.handleInboundResourceData data
    some ⟨handled.router, c.calls ++ inboundCalls none handled.events⟩
  | .propagationPacket messages =>
    let handled := c.router.propagationPacket messages
    some ⟨handled.router, c.calls ++ inboundCalls none handled.events⟩
  | .propagationResource peer messages =>
    let handled := c.router.propagationResourceMessages peer messages
    some ⟨handled.router, c.calls ++ inboundCalls none handled.events⟩
  | .cleanCaches => some { c with router := c.router.cleanTransientIDCaches }
  | .tick now => some { c with router := { c.router with now } }

end Client
end Reticulum.Lxmf
