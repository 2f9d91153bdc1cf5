import Reticulum.Binary64
import Reticulum.Lxmf.Download
import Reticulum.Lxmf.MessageStore
import Reticulum.Msgpack.Ordered

/-! # Requests for stored messages (lxmf/router.go)

`messageGetRequest` lists the messages of an identity, or deletes those that it has and returns those that it wants. Any
MessagePack value is taken as a request that can be read as a list of two or three elements. -/

namespace Reticulum.Lxmf

open Msgpack (Value)
open Text (Str)

def decodeAnyPreserveBinMapKeys (data : Bytes) : Option Value := if data = [] then none else Msgpack.unpackStrictOrdered data

def numericRequestIndexMatches (key : Value) (index : Nat) : Bool :=
  match key with
  | .bool b => if index = 0 then !b else if index = 1 then b else false
  | .int i => i.toInt = index
  | .uint n => n.toNat = index
  | .float32 bits => (Binary64.ofBits (Binary64.widen bits)).equal (Binary64.ofInt index)
  | .float64 bits => (Binary64.ofBits bits).equal (Binary64.ofInt index)
  | _ => false

def orderedMapIndexValue (entries : List (Value × Value)) (index : Nat) : Option Value :=
  (entries.find? fun e => numericRequestIndexMatches e.1 index).map (·.2)

def extElements (type : Int8) (data : Bytes) : List Value := [.int type.toInt64, .bin data]

def messageGetRequestRoot : Value → Option (List Value)
  | .array items => some items
  | .str s => some ((Text.runes s).map fun c => .str (Text.encodeRunes [c]))
  | .ext type data => some (extElements type data)
  | .map entries => do
    let first ← orderedMapIndexValue entries 0
    let second ← orderedMapIndexValue entries 1
    return [first, second] ++ if 3 ≤ entries.length then [(orderedMapIndexValue entries 2).getD .nil] else []
  | _ => none

def messageGetRequestEntries : Value → Option (List Value)
  | .nil | .str _ | .bin _ => some []
  | .ext type data => some (extElements type data)
  | .map entries => some (entries.map (·.1))
  | .array items => some items
  | _ => none

def isNilValue : Value → Bool
  | .nil => true
  | _ => false

/-- `none` for a value that is not hashable, and `some none` for one that is not a byte string. -/
def messageGetRequestTransientID : Value → Option (Option Bytes)
  | .bin b => some (some b)
  | .map _ | .array _ => none
  | _ => some none

/-- What a number in float64 and a text stand for as a limit: `limitBytesFromFloat64` and `parseLimitString`. -/
structure LimitText where
  ofFloat : UInt64 → Option Int
  ofText : Bytes → Option Int

def maxInt : Int := 2 ^ 63 - 1

def minInt : Int := -2 ^ 63

/-- `limitBytesFromSignedInt64` and `limitBytesFromUnsignedUint64`. -/
def limitBytesFromInt (value : Int) : Int :=
  if maxInt.tdiv 1000 < value then maxInt
  else if value < minInt.tdiv 1000 then minInt
  else value * 1000

def parseLimitBytes (L : LimitText) (values : List Value) (index : Nat) : Option Int :=
  match values[index]? with
  | some (.bool b) => some (if b then 1000 else 0)
  | some (.float64 bits) => L.ofFloat bits
  | some (.float32 bits) => L.ofFloat (Binary64.widen bits)
  | some (.int i) => some (limitBytesFromInt i.toInt)
  | some (.uint n) => some (limitBytesFromInt n.toNat)
  | some (.str s) => L.ofText s
  | some (.bin b) => L.ofText b
  | _ => none

namespace StoreEntry

variable (e : StoreEntry)

/-- `len(payload)` if no size is known. -/
def memorySize : Nat := if 0 < e.size then e.size else e.payload.length

/-- `propagationEntryListSize`. -/
def listSize (files : Table Bytes) : Option Nat :=
  match e.path with
  | some name => (files.lookup name).map List.length
  | none => some e.memorySize

/-- `propagationEntryMessageSize`. -/
def messageSize (files : Table Bytes) : Nat :=
  match e.path.bind fun name => files.lookup name with
  | some fileData => fileData.length
  | none => e.memorySize

/-- `propagationEntryHasPersistedStamp`. -/
def hasPersistedStamp : Bool := 0 < e.stampValue || e.payload.length + stampSize ≤ e.size

/-- `propagationEntryResponsePayload`. -/
def responsePayload (files : Table Bytes) : Option Bytes :=
  match e.path with
  | none => some e.payload
  | some name => do
    let fileData ← files.lookup name
    if e.hasPersistedStamp then return fileData.take (fileData.length - stampSize)
    else if e.destinationHash ≠ [] ∧ e.destinationHash <+: fileData then return fileData.drop e.destinationHash.length
    else if destinationLength ≤ fileData.length then return fileData.drop destinationLength
    else return fileData

end StoreEntry

structure AvailableEntry where
  transientID : Bytes
  size : Nat
  receivedAt : Time
  order : ℕ+
deriving DecidableEq

def AvailableEntry.before (a b : AvailableEntry) : Bool :=
  if a.size ≠ b.size then a.size < b.size
  else if a.order ≠ b.order then a.order < b.order
  else if a.receivedAt ≠ b.receivedAt then a.receivedAt < b.receivedAt
  else a.transientID < b.transientID

/-- An answer: an error code, nil, or a list of byte strings. -/
inductive GetResponse where
  | error (code : Int64)
  | nil
  | items (items : List Bytes)
deriving DecidableEq

def peerErrorInvalidData : Int64 := 0xf4

/-- `CalculateHash` of an identity, given by its hash, for the delivery destination. -/
def deliveryHash (identityHash : Bytes) : Bytes :=
  truncatedHash ((fullHash (Text.ascii "lxmf.delivery")).take 10 ++ identityHash)

structure EntryVisit where
  order : List (Bytes × StoreEntry) → List (Bytes × StoreEntry)
  perm : ∀ entries, (order entries).Perm entries

namespace PropagationNode

variable (n : PropagationNode)

def ownEntry (destinationHash transientID : Bytes) : Option StoreEntry :=
  (n.propagationEntries.lookup transientID).filter fun e => e.destinationHash = destinationHash

def ownEntries (destinationHash : Bytes) : List (Bytes × StoreEntry) :=
  (n.propagationEntries.entries.map fun e => (e.1, e.2)).filter fun e => e.2.destinationHash = destinationHash

def availableEntry (e : Bytes × StoreEntry) : Option AvailableEntry :=
  (e.2.listSize n.files).map fun size => { transientID := e.1, size, receivedAt := e.2.receivedAt, order := e.2.order }

/-- The list form of the request; nil if the size of a file cannot be read. -/
def listMessages (visit : EntryVisit) (destinationHash : Bytes) : GetResponse :=
  let own := visit.order (n.ownEntries destinationHash)
  if own.all fun e => (n.availableEntry e).isSome then
    .items (((own.filterMap n.availableEntry).mergeSort fun a b => !b.before a).map (·.transientID))
  else .nil

def deleteHaves (n : PropagationNode) (destinationHash : Bytes) : List Value → Bool × PropagationNode
  | [] => (true, n)
  | value :: haves =>
    match messageGetRequestTransientID value with
    | none => (false, n)
    | some none => n.deleteHaves destinationHash haves
    | some (some transientID) =>
      match n.ownEntry destinationHash transientID with
      | none => n.deleteHaves destinationHash haves
      | some _ => (n.removePropagationEntry transientID).deleteHaves destinationHash haves

def collectWants (n : PropagationNode) (destinationHash : Bytes) (limit : Option Int) (cumulativeSize : Nat) :
    List Value → Option (List Bytes)
  | [] => some []
  | value :: wants =>
    match messageGetRequestTransientID value with
    | none => none
    | some none => n.collectWants destinationHash limit cumulativeSize wants
    | some (some transientID) =>
      match n.ownEntry destinationHash transientID with
      | none => n.collectWants destinationHash limit cumulativeSize wants
      | some entry =>
        let nextSize := cumulativeSize + entry.messageSize n.files + 16
        if limit.any fun limitBytes => limitBytes < (nextSize : Int) then
          n.collectWants destinationHash limit cumulativeSize wants
        else
          match entry.responsePayload n.files with
          | none => n.collectWants destinationHash limit cumulativeSize wants
          | some payload => (n.collectWants destinationHash limit nextSize wants).map (payload :: ·)

def getMessages (destinationHash : Bytes) (limit : Option Int) (wants haves : List Value) :
    GetResponse × PropagationNode :=
  match n.deleteHaves destinationHash haves with
  | (false, n) => (.nil, n)
  | (true, n) =>
    match n.collectWants destinationHash limit 24 wants with
    | none => (.nil, n)
    | some response =>
      (.items response,
        { n with clientPropagationMessagesServed := n.clientPropagationMessagesServed + response.length })

/-- `messageGetRequest` after the request is read as a list. -/
def answerRequest (L : LimitText) (visit : EntryVisit) (destinationHash : Bytes)
    (request : List Value) : GetResponse × PropagationNode :=
  match request with
  | first :: second :: _ =>
    match messageGetRequestEntries first, messageGetRequestEntries second with
    | some wants, some haves =>
      if isNilValue first && isNilValue second then (n.listMessages visit destinationHash, n)
      else n.getMessages destinationHash (parseLimitBytes L request 2) wants haves
    | _, _ => (.nil, n)
  | _ => (.nil, n)

/-- `messageGetRequest` of an identity, given by its hash. -/
def messageGetRequest (L : LimitText) (visit : EntryVisit) (remoteIdentity : Option Bytes)
    (data : Bytes) : GetResponse × PropagationNode :=
  match remoteIdentity with
  | none => (.error peerErrorNoIdentity, n)
  | some identityHash =>
    if n.authRequired ∧ identityHash ∉ n.allowedList then (.error peerErrorNoAccess, n)
    else
      match decodeAnyPreserveBinMapKeys data with
      | none => (.error peerErrorInvalidData, n)
      | some unpacked =>
        match messageGetRequestRoot unpacked with
        | none => (.nil, n)
        | some request => n.answerRequest L visit (deliveryHash identityHash) request

inductive Action where
  | store (a : Acceptance)
  | clean (now : Time) (weighted : List Bytes)
  | restart (names : List Str) (now : Time)
  | get (visit : EntryVisit) (remoteIdentity : Option Bytes) (data : Bytes)
  | setAccess (authRequired : Bool) (allowedList : Finset Bytes)
  | setMessageStorageLimit (limit : ℚ)

def step (T : TimeText) (L : LimitText) (n : PropagationNode) : Action → Option PropagationNode
  | .store a => some (n.storePropagationMessageStamped T a)
  | .clean now weighted => some (n.cleanMessageStore T now weighted)
  | .restart names now => if names.Perm n.files.keys then some (n.enablePropagation T names now) else none
  | .get visit remoteIdentity data => some (n.messageGetRequest L visit remoteIdentity data).2
  | .setAccess authRequired allowedList => some { n with authRequired, allowedList }
  | .setMessageStorageLimit limit => some { n with messageStorageLimit := limit }

end PropagationNode
end Reticulum.Lxmf
