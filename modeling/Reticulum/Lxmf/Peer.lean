import Reticulum.Lxmf.Router
import Reticulum.Threads
import Mathlib.Data.List.Sort

/-! # Syncing with a propagation peer (lxmf/peer.go)

`Sync` opens a link to the peer or, on an open link, offers the messages that the peer does not have yet. The functions
of a `Peer` run on their own threads and hold the peer's lock only in parts; each such part, and each write without the
lock, is a section. -/

namespace Reticulum.Lxmf

inductive PeerState where
  | idle
  | linkEstablishing
  | linkReady
  | requestSent
  | responseReceived
  | resourceTransferring
deriving DecidableEq, Repr

/-- A link the peer made: whether `Establish` was called, and whether its callbacks are the peer's. -/
structure SyncLink where
  id : Nat
  establishCalled : Bool := false
  callbacks : Bool := false
deriving DecidableEq, Repr

structure SyncResource where
  id : Nat
  advertised : Bool := false
deriving DecidableEq, Repr

structure Peer where
  destinationHash : Bytes
  state : PeerState := .idle
  link : Option SyncLink := none
  lastOffer : List Bytes := []
  currentlyTransferringMessages : Option (List Bytes) := none
  /-- Whether the sync strategy is `PeerStrategyPersistent`. -/
  persistent : Bool := true
  propagationTransferLimit : Option Float := none
  propagationSyncLimit : Option Int := none
  /-- `MinAcceptedStampCost`. -/
  minAcceptedStampCost : Int := 0
  offered : Nat := 0
  outgoing : Nat := 0

/-- The peer, what syncing reads of its router, the open offers, and the resources not yet concluded. -/
structure SyncWorld where
  peer : Peer
  propagationEntries : Table PropagationEntry := ∅
  prioritisedList : Finset Bytes := ∅
  now : Time := 0
  requests : List Nat := []
  resources : List SyncResource := []
  /-- A number that no link, offer or resource has. -/
  fresh : Nat := 0

/-- `UnhandledMessages` of the peer with this hash. -/
def unhandledMessages (entries : Table PropagationEntry) (peer : Bytes) : List Bytes :=
  (entries.entries.filter fun e => peer ∈ e.2.unhandledBy).map Sigma.fst

def addHandledMessage (peer : Bytes) (entries : Table PropagationEntry) (transientID : Bytes) : Table PropagationEntry :=
  match entries.lookup transientID with
  | none => entries
  | some entry =>
    if peer ∈ entry.handledBy then entries
    else entries.insert transientID { entry with handledBy := entry.handledBy ++ [peer] }

def removeUnhandledMessage (peer : Bytes) (entries : Table PropagationEntry) (transientID : Bytes) :
    Table PropagationEntry :=
  match entries.lookup transientID with
  | none => entries
  | some entry => entries.insert transientID { entry with unhandledBy := entry.unhandledBy.filter (· ≠ peer) }

def markHandled (peer : Bytes) (entries : Table PropagationEntry) (ids : List Bytes) : Table PropagationEntry :=
  ids.foldl (fun entries id => removeUnhandledMessage peer (addHandledMessage peer entries id) id) entries

/-- `Duration.Seconds`. -/
def durationSeconds (d : Int) : Float := Float.ofInt (d.tdiv 1000000000) + Float.ofInt (d.tmod 1000000000) / 1e9

/-- `getWeightLocked` of an entry. -/
def weight (w : SyncWorld) (entry : PropagationEntry) : Float :=
  let age := durationSeconds (w.now - entry.receivedAt) / 60 / 60 / 24 / 4
  let ageWeight := if age < 1 then 1 else age
  let priorityWeight := if entry.destinationHash ∈ w.prioritisedList then 0.1 else 1.0
  priorityWeight * ageWeight * Float.ofNat entry.size

structure PendingOfferEntry where
  transientID : Bytes
  weight : Float
  size : Nat

/-- The entries to offer, and the IDs to drop because the message is gone or its stamp is worth too little. -/
def collectPendingOfferEntries (w : SyncWorld) (unhandled : List Bytes) : List PendingOfferEntry × List Bytes :=
  (unhandled.filterMap fun id =>
      match w.propagationEntries.lookup id with
      | none => none
      | some entry =>
        if entry.stampValue < w.peer.minAcceptedStampCost then none
        else some { transientID := id, weight := weight w entry, size := entry.size },
    unhandled.filter fun id =>
      match w.propagationEntries.lookup id with
      | none => true
      | some entry => entry.stampValue < w.peer.minAcceptedStampCost)

def applyLimits (p : Peer) (cumulativeSize : Nat) : List PendingOfferEntry → List Bytes × List Bytes
  | [] => ([], [])
  | e :: rest =>
    let lxmTransferSize := e.size + 16
    let nextSize := cumulativeSize + lxmTransferSize
    if p.propagationTransferLimit.any fun limit => Float.ofNat lxmTransferSize > limit * 1000 then
      let (ids, tooLarge) := applyLimits p cumulativeSize rest
      (ids, e.transientID :: tooLarge)
    else if p.propagationSyncLimit.any fun limit => (nextSize : Int) ≥ limit * 1000 then
      applyLimits p cumulativeSize rest
    else
      let (ids, tooLarge) := applyLimits p nextSize rest
      (e.transientID :: ids, tooLarge)

/-- The offer that `Sync` makes on an open link, with the store after it. The sort is stable. -/
def prepareOffer (w : SyncWorld) (unhandled : List Bytes) : List Bytes × Table PropagationEntry :=
  let (entries, dropped) := collectPendingOfferEntries w unhandled
  let store := dropped.foldl (removeUnhandledMessage w.peer.destinationHash) w.propagationEntries
  let (ids, tooLarge) := applyLimits w.peer 24 (entries.insertionSort fun a b => a.weight ≤ b.weight)
  (ids, tooLarge.foldl (fun store id =>
    addHandledMessage w.peer.destinationHash (removeUnhandledMessage w.peer.destinationHash store id) id) store)

def syncPayload (entries : Table PropagationEntry) (transientID : Bytes) : Option Bytes :=
  match entries.lookup transientID with
  | none => none
  | some entry => if entry.payload = [] then none else some entry.payload

def syncPayloads (entries : Table PropagationEntry) (wantedIDs : List Bytes) : List Bytes :=
  wantedIDs.filterMap (syncPayload entries)

/-- A response to an offer, as `OfferResponse` tells them apart. -/
inductive OfferResponse where
  | noIdentity
  | noAccess
  | throttled
  /-- `false`, and every value that is not recognised. -/
  | nothing
  | everything
  | wanted (ids : List Bytes)
deriving DecidableEq

/-- Where a function of the peer goes on. The first group are the points where one starts. A callback
    names the offer or the resource it is for, if it was not called on its own. -/
inductive SyncPoint where
  | sync
  | linkEstablished
  | linkClosed
  | offerResponse (request : Option Nat) (response : OfferResponse)
  | requestFailed (request : Option Nat)
  | startSyncTransfer (wantedIDs : List Bytes)
  | resourceConcluded (resource : Option Nat) (complete : Bool)
  | syncNewLink
  | syncEstablishing
  | syncOffer (unhandled : List Bytes)
  | syncRequest (ids : List Bytes)
  | syncSent (request : Option Nat)
  | responding (response : OfferResponse) (offer : List Bytes) (link : Option SyncLink)
  | responseDone (offer : List Bytes)
  | newResource (wantedIDs : List Bytes)
  | transferring (wantedIDs : List Bytes)
  | concluding (resource : Option Nat) (transferring : List Bytes)
deriving DecidableEq

namespace SyncPoint

def isEntry : SyncPoint → Bool
  | sync | linkEstablished | linkClosed | offerResponse .. | requestFailed .. | startSyncTransfer ..
  | resourceConcluded .. => true
  | _ => false

end SyncPoint

namespace SyncWorld
open SyncPoint

variable (w : SyncWorld)

def setState (state : PeerState) : SyncWorld := { w with peer := { w.peer with state } }

def toIdle : SyncWorld := { w with peer := { w.peer with link := none, state := .idle } }

def endRequest : Option Nat → SyncWorld
  | none => w
  | some id => { w with requests := w.requests.filter (· ≠ id) }

def endResource : Option Nat → SyncWorld
  | none => w
  | some id => { w with resources := w.resources.filter (·.id ≠ id) }

/-- One section. The input says whether `Sync` may go on, and whether `NewLink`, `requestLink` and `newResource`
    succeed. A nil link makes the last two panic, which ends the thread. -/
def exec (t : SyncPoint) (ok : Bool) : SyncWorld × List SyncPoint :=
  match t with
  | sync =>
    let unhandled := unhandledMessages w.propagationEntries w.peer.destinationHash
    if ok = false ∨ unhandled = [] ∨ w.peer.currentlyTransferringMessages ≠ none then (w, [])
    else
      match w.peer.state with
      | .idle => (w, [syncNewLink])
      | .linkReady => (w, [syncOffer unhandled])
      | _ => (w, [])
  | syncNewLink =>
    let link := if ok then some { id := w.fresh } else none
    ({ w with peer := { w.peer with link }, fresh := w.fresh + 1 }, [syncEstablishing])
  | syncEstablishing => (w.setState .linkEstablishing, [])
  | syncOffer unhandled =>
    let (ids, store) := prepareOffer w unhandled
    let w := { w with propagationEntries := store }
    if ids = [] then (w, [])
    else ({ w with peer := { w.peer with lastOffer := ids } }, [syncRequest ids])
  | syncRequest _ =>
    match w.peer.link with
    | none => (w, [])
    | some _ =>
      if ok then ({ w with requests := w.fresh :: w.requests, fresh := w.fresh + 1 }, [syncSent (some w.fresh)])
      -- The error is only logged.
      else (w, [syncSent none])
  | syncSent _ => (w.setState .requestSent, [])
  | linkEstablished => (w.setState .linkReady, [sync])
  | linkClosed => (w.toIdle, [])
  | requestFailed request => ((w.endRequest request).toIdle, [])
  | offerResponse request response =>
    ((w.endRequest request).setState .responseReceived, [responding response w.peer.lastOffer w.peer.link])
  | responding response offer link =>
    let store := markHandled w.peer.destinationHash w.propagationEntries
    match response with
    | .noIdentity => if link = none then (w, []) else (w.setState .linkReady, [sync])
    | .noAccess => (w, [])
    | .throttled => (w, [])
    | .nothing => ({ w with propagationEntries := store offer }, [responseDone offer])
    | .everything => (w, [startSyncTransfer offer])
    | .wanted ids =>
      ({ w with propagationEntries := store (offer.filter (· ∉ ids)) }, [startSyncTransfer ids])
  | responseDone offer =>
    ({ w with peer := { w.peer with offered := w.peer.offered + offer.length } }.toIdle, [])
  | startSyncTransfer wantedIDs =>
    if syncPayloads w.propagationEntries wantedIDs = [] then
      ({ w with peer := { w.peer with offered := w.peer.offered + w.peer.lastOffer.length } }.toIdle, [])
    else (w, [.newResource wantedIDs])
  | .newResource wantedIDs =>
    match w.peer.link with
    | none => (w, [])
    | some _ =>
      if ok then
        -- `rns.NewResource` makes the resource; `Advertise` is not called on it.
        ({ w with resources := { id := w.fresh } :: w.resources, fresh := w.fresh + 1 }, [transferring wantedIDs])
      else (w.toIdle, [])
  | transferring wantedIDs =>
    ({ w with peer := { w.peer with currentlyTransferringMessages := some wantedIDs } }.setState
      .resourceTransferring, [])
  | resourceConcluded resource complete =>
    if complete then
      let ids := w.peer.currentlyTransferringMessages.getD []
      ({ w with propagationEntries := markHandled w.peer.destinationHash w.propagationEntries ids },
        [concluding resource ids])
    else
      (({ w with peer := { w.peer with currentlyTransferringMessages := none } }.endResource resource).toIdle, [])
  | concluding resource ids =>
    let peer := { w.peer with
      offered := w.peer.offered + w.peer.lastOffer.length
      outgoing := w.peer.outgoing + ids.length
      currentlyTransferringMessages := none }
    (({ w with peer }.endResource resource).toIdle,
      if w.peer.persistent ∧ unhandledMessages w.propagationEntries w.peer.destinationHash ≠ [] then [sync] else [])

def system : Threads.System SyncWorld SyncPoint Bool where
  entry := SyncPoint.isEntry
  exec w t ok := some (w.exec t ok)

end SyncWorld
end Reticulum.Lxmf
