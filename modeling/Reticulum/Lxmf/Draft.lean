import Reticulum.Lxmf.Message
import Reticulum.Msgpack.Sorted
import Reticulum.Transitions

/-! # Packing and stamping a message (lxmf/message.go, lxmf/router.go)

The stamp is made while the message is packed, or later by `ProcessDeferredStamps`, which packs it again. Signing is
taken to succeed, a ticket that the router puts into the fields belongs to them from the beginning, and of the rest of
`Pack` it is only left whether it succeeds. -/

namespace Reticulum.Lxmf

open Msgpack (Value Visit)

structure Draft where
  destinationHash : Bytes
  sourceHash : Bytes
  timestamp : UInt64 := 0
  title : Bytes := []
  content : Bytes := []
  fields : Value := .map []
  stampCost : Option Int := none
  /-- Whether the cost from the announce is not an integer. -/
  rawStampCost : Bool := false
  outboundTicket : Bytes := []
  deferStamp : Bool := true
  deferPropagationStamp : Bool := true
  /-- Whether the desired method is propagation. -/
  propagated : Bool := false
  stamp : Bytes := []
  propagationStamp : Bytes := []
  messageID : Bytes := []
  packed : Bytes := []

/-- What a call of `Pack` depends on: the clock, the orders in which maps are visited, candidates for a stamp until the
    search is given up, the signature, and whether the rest succeeds. -/
structure PackFacts where
  now : UInt64
  hashVisit : List Nat → Visit
  wireVisit : List Nat → Visit
  candidates : List Bytes
  sign : Bytes → Bytes
  finishes : Bool := true
  now_pos : now.toNat % 2 ^ 63 ≠ 0
  candidates_length : ∀ c ∈ candidates, c.length = stampSize
  sign_length : ∀ data, (sign data).length = signatureLength

/-- `GenerateStamp`; `none` if it fails or is given up. -/
def generateStamp (material : Bytes) (targetCost : Int) (expandRounds : Nat) (candidates : List Bytes) : Option Bytes :=
  if targetCost < 0 then some []
  else if targetCost > 256 then none
  else do
    let workblock ← stampWorkblock material expandRounds
    candidates.find? fun candidate => decide (targetCost ≤ stampValue workblock candidate)

namespace Draft

variable (m : Draft)

/-- `GetStamp`; empty for no stamp. -/
def getStamp (candidates : List Bytes) : Option Bytes :=
  if m.outboundTicket.length = ticketLength ∧ m.messageID ≠ [] then some (truncatedHash (m.outboundTicket ++ m.messageID))
  else if m.rawStampCost then none
  else
    match m.stampCost with
    | none => some []
    | some cost =>
      if m.stamp ≠ [] then some m.stamp else generateStamp m.messageID cost workblockExpandRounds candidates

def basePayload : List Value := [.float64 m.timestamp, .bin m.title, .bin m.content, m.fields]

/-- `m.Timestamp == 0`. -/
def isUndated : Bool := m.timestamp.toNat % 2 ^ 63 = 0

def hashedPart (visit : List Nat → Visit) : Bytes :=
  m.destinationHash ++ m.sourceHash ++ Msgpack.packSorted visit (.array m.basePayload)

def wirePayload : List Value := m.basePayload ++ if m.stamp = [] then [] else [.bin m.stamp]

def dated (now : UInt64) : Draft := { m with timestamp := if m.isUndated then now else m.timestamp }

def identified (f : PackFacts) : Draft :=
  let m := m.dated f.now
  { m with messageID := fullHash (m.hashedPart f.hashVisit) }

/-- The stamp that `Pack` puts into the message; `none` if there should be one and it cannot be made. -/
def packedStamp (candidates : List Bytes) : Option Bytes :=
  if m.deferStamp then some m.stamp else m.getStamp candidates

def encode (f : PackFacts) : Bytes :=
  let signature := f.sign (m.hashedPart f.hashVisit ++ m.messageID)
  m.destinationHash ++ m.sourceHash ++ signature ++ Msgpack.packSorted f.wireVisit (.array m.wirePayload)

/-- `Pack`: whether it succeeds, and the message after it. -/
def pack (f : PackFacts) : Bool × Draft :=
  if m.packed ≠ [] then (false, m)
  else if m.destinationHash.length ≠ destinationLength ∨ m.sourceHash.length ≠ destinationLength then (false, m)
  else
    let m := m.identified f
    match m.packedStamp f.candidates with
    | none => (false, m)
    | some stamp => (f.finishes, { m with stamp, packed := { m with stamp }.encode f })

def resetPackedState : Draft := { m with messageID := [], packed := [] }

end Draft

/-- Where a message is: with the application, also after it has failed, waiting for its stamps, or in the queue. -/
inductive Place where
  | application
  | deferred
  | outbound
deriving DecidableEq, Repr

/-- What `HandleOutbound` finds: the announced cost (`some none` if it is not an integer), the ticket in the store,
    whether there is a propagation node, and whether the packed message is taken. -/
structure OutboundFacts where
  announcedCost : Option (Option Int) := none
  ticket : Bytes := []
  propagationNode : Bool := true
  pack : PackFacts
  taken : Bool := true

/-- What `ProcessDeferredStamps` gets: candidates, the stamp for the node, if it can be made, and two calls of `Pack`. -/
structure DeferredFacts where
  candidates : List Bytes
  candidates_length : ∀ c ∈ candidates, c.length = stampSize
  propagationStamp : Option Bytes
  first : PackFacts
  second : PackFacts

namespace Draft

variable (m : Draft)

/-- The cost of the message, or the announced one if it has none, and whether that is not an integer. -/
def learnedCost (f : OutboundFacts) : Option Int × Bool :=
  match m.stampCost, f.announcedCost with
  | none, some (some cost) => (some cost, m.rawStampCost)
  | none, some none => (none, true)
  | stampCost, _ => (stampCost, m.rawStampCost)

/-- The cost and the ticket that `HandleOutbound` gives to the message, and whether the stamp is still deferred. -/
def withStampFacts (f : OutboundFacts) : Draft :=
  let (stampCost, rawStampCost) := m.learnedCost f
  let outboundTicket := if f.ticket ≠ [] then f.ticket else m.outboundTicket
  { m with stampCost, rawStampCost, outboundTicket
           deferStamp := m.deferStamp && outboundTicket = [] && stampCost ≠ none }

/-- Where `HandleOutbound` puts the message. -/
def queue : Place :=
  if m.deferStamp || m.propagated && m.deferPropagationStamp then .deferred else .outbound

def handleOutbound (f : OutboundFacts) : Draft × Place :=
  if m.propagated && !f.propagationNode then (m, .application)
  else
    let m := m.withStampFacts f
    let (success, m) := if m.packed = [] then m.pack f.pack else (true, m)
    if !success || !f.taken then (m, .application)
    else (m, m.queue)

def makeStamp (f : DeferredFacts) : Bool × Draft :=
  if !m.deferStamp || m.stamp ≠ [] then (true, m)
  else
    match m.getStamp f.candidates with
    | none => (false, m)
    | some stamp =>
      if stamp = [] then (false, m)
      else { m with stamp, deferStamp := false }.resetPackedState.pack f.first

def makePropagationStamp (f : DeferredFacts) : Bool × Draft :=
  if !m.propagated || m.propagationStamp ≠ [] then (true, m)
  else
    match f.propagationStamp with
    | none => (false, m)
    | some propagationStamp =>
      if propagationStamp = [] then (false, m)
      else { m with propagationStamp, deferPropagationStamp := false }.resetPackedState.pack f.second

/-- `ProcessDeferredStamps` for this message. -/
def processDeferredStamps (f : DeferredFacts) : Draft × Place :=
  match m.makeStamp f with
  | (false, m) => (m, .application)
  | (true, m) =>
    match m.makePropagationStamp f with
    | (false, m) => (m, .application)
    | (true, m) => (m, .outbound)

end Draft

structure Outgoing where
  draft : Draft
  place : Place := .application

namespace Outgoing

inductive Action where
  | pack (f : PackFacts)
  | handleOutbound (f : OutboundFacts)
  | processDeferredStamps (f : DeferredFacts)

def step (s : Outgoing) : Action → Option Outgoing
  | .pack f => some { s with draft := (s.draft.pack f).2 }
  | .handleOutbound f =>
    if s.place = .application then
      let (draft, place) := s.draft.handleOutbound f
      some { draft, place }
    else none
  | .processDeferredStamps f =>
    if s.place = .deferred then
      let (draft, place) := s.draft.processDeferredStamps f
      some { draft, place }
    else none

end Outgoing
end Reticulum.Lxmf
