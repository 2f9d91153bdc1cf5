import Reticulum.Lxmf.Message
import Reticulum.Text
import Reticulum.Binary64
import Mathlib.Data.Finset.Basic

/-! # The message store of a propagation node (lxmf/router.go)

A message for somebody else is written to a directory and has an entry in memory. A restart makes the entries from the
files; `cleanMessageStore` compares each entry with the name of its file. Reading, listing and removing files is taken
to succeed. -/

namespace Reticulum.Lxmf

open Text (Str)

/-- What `strconv` and float64 seconds make of times. -/
structure TimeText where
  /-- `FormatFloat(peerTime(t), 'f', -1, 64)`. -/
  format : Time → Str
  /-- `ParseFloat` and `timeFromPeerValue`; `none` also for a number that is not positive. -/
  parse : Str → Option Time
  /-- `peerTime(a) == peerTime(b)`. -/
  same : Time → Time → Bool
  format_digits : ∀ t, 95 ∉ format t
  same_refl : ∀ t, same t t = true

def messageExpiry : Time := 30 * 24 * 3600 * 1000000000

/-- `propagationEntry`; the path is the name of the file, and orders are counted from one. -/
structure StoreEntry where
  destinationHash : Bytes
  payload : Bytes
  receivedAt : Time
  order : ℕ+
  path : Option Str
  size : Nat
  stampValue : Int
deriving DecidableEq

structure PropagationNode where
  authRequired : Bool := false
  allowedList : Finset Bytes := ∅
  /-- The files of the message store by name. -/
  files : Table Bytes := ∅
  propagationEntries : Table StoreEntry := ∅
  propagationEntrySeq : Nat := 0
  /-- A float64, in bytes; no limit if it is not positive. -/
  messageStorageLimit : ℚ := 0
  clientPropagationMessagesServed : Nat := 0

section

variable (T : TimeText)

/-- The name in `writePropagationMessageFile`. -/
def storeFilename (transientID : Bytes) (receivedAt : Time) (stampValue : Int) (stampData : Bytes) : Str :=
  let timestamp := T.format receivedAt
  if stampData ≠ [] ∧ stampValue ≤ 0 then [95].intercalate [Text.hexEncode transientID, timestamp]
  else [95].intercalate [Text.hexEncode transientID, timestamp, Text.formatInt stampValue]

def parsePropagationStoreFilename (name : Str) : Option (Bytes × Time × Int) :=
  match name.splitOn 95 with
  | id :: received :: value :: _ => do
    let transientID ← Text.hexDecode id
    let timestamp ← T.parse received
    let stampValue ← Text.atoi value
    return (transientID, timestamp, stampValue)
  | _ => none

def indexFile (name : Str) (fileData : Bytes) (order : ℕ+) : Option (Bytes × StoreEntry) := do
  let (transientID, receivedAt, stampValue) ← parsePropagationStoreFilename T name
  if fileData.length < destinationLength then none
  else
    let candidatePayload := fileData.take (fileData.length - stampSize)
    return (transientID, {
      destinationHash := fileData.take destinationLength
      payload :=
        if destinationLength + stampSize ≤ fileData.length ∧ fullHash candidatePayload = transientID then candidatePayload
        else fileData.drop destinationLength
      receivedAt, order, stampValue
      path := some name
      size := fileData.length })

/-- Whether `cleanMessageStore` removes the entry whatever the size of the store. -/
def isStale (now : Time) (transientID : Bytes) (entry : StoreEntry) : Bool :=
  match entry.path with
  | none => false
  | some name =>
    match parsePropagationStoreFilename T name with
    | none => true
    | some (parsedID, timestamp, stampValue) =>
      parsedID ≠ transientID || !T.same timestamp entry.receivedAt || stampValue ≠ entry.stampValue ||
        timestamp + messageExpiry < now

end

instance neZero_stampValues : NeZero 257 := ⟨by decide⟩

/-- What `storePropagationMessageStamped` is called with, the time, and whether the file can be written. The stamp is
    empty or as it was validated. -/
structure Acceptance where
  receivedAt : Time
  persisted : Bool := true
  lxmfData : Bytes
  stampData : Bytes := []
  stampValue : Fin 257 := 0
  length_lxmfData : destinationLength ≤ lxmfData.length
  stamp : stampData = [] ∧ stampValue = 0 ∨ stampData.length = stampSize

namespace Acceptance

theorem stamp_absent : ([] : Bytes) = [] ∧ (0 : Fin 257) = 0 ∨ ([] : Bytes).length = stampSize := .inl ⟨rfl, rfl⟩

variable (a : Acceptance)

def transientID : Bytes := fullHash a.lxmfData

def destinationHash : Bytes := a.lxmfData.take destinationLength

def filename (T : TimeText) : Str := storeFilename T a.transientID a.receivedAt a.stampValue a.stampData

def fileData : Bytes := storeFileData a.destinationHash a.lxmfData a.stampData

end Acceptance

namespace PropagationNode

variable (n : PropagationNode)

/-- `nextPropagationEntryOrderLocked`, and the counter after it. -/
def nextPropagationEntryOrder (transientID : Bytes) : ℕ+ × Nat :=
  match n.propagationEntries.lookup transientID with
  | some existing => (existing.order, n.propagationEntrySeq)
  | none => (n.propagationEntrySeq.succPNat, n.propagationEntrySeq + 1)

def storePropagationMessageStamped (T : TimeText) (a : Acceptance) : PropagationNode :=
  let (order, propagationEntrySeq) := n.nextPropagationEntryOrder a.transientID
  let entry : StoreEntry := {
    destinationHash := a.destinationHash
    payload := a.lxmfData
    receivedAt := a.receivedAt
    order
    path := if a.persisted then some (a.filename T) else none
    size := if a.persisted then a.fileData.length else a.destinationHash.length + a.lxmfData.length
    stampValue := a.stampValue }
  { n with
    files := if a.persisted then n.files.insert (a.filename T) a.fileData else n.files
    propagationEntries := n.propagationEntries.insert a.transientID entry
    propagationEntrySeq }

def indexFiles (T : TimeText) (files : Table Bytes) : List Str → Table StoreEntry × Nat → Table StoreEntry × Nat
  | [], indexed => indexed
  | name :: names, (entries, sequence) =>
    match (files.lookup name).bind fun fileData => indexFile T name fileData sequence.succPNat with
    | some (transientID, entry) => indexFiles T files names (entries.insert transientID entry, sequence + 1)
    | none => indexFiles T files names (entries, sequence)

/-- `reindexPropagationStoreLocked`; the names come in any order. -/
def reindexPropagationStore (T : TimeText) (names : List Str) : PropagationNode :=
  let (propagationEntries, propagationEntrySeq) := indexFiles T n.files names (∅, 0)
  { n with propagationEntries, propagationEntrySeq }

/-- `removePropagationEntryLocked`. -/
def removePropagationEntry (transientID : Bytes) : PropagationNode :=
  match n.propagationEntries.lookup transientID with
  | none => n
  | some entry =>
    { n with
      propagationEntries := n.propagationEntries.erase transientID
      files := match entry.path with
        | none => n.files
        | some name => n.files.erase name }

def messageStorageSize : Nat := (n.propagationEntries.entries.map fun e => e.2.size).sum

/-- The loop of `cleanMessageStore` that makes room. -/
def makeRoom (n : PropagationNode) (bytesNeeded bytesCleaned : ℚ) : List Bytes → PropagationNode
  | [] => n
  | transientID :: weighted =>
    if bytesNeeded ≤ bytesCleaned then n
    else
      let size : Nat := ((n.propagationEntries.lookup transientID).map (·.size)).getD 0
      (n.removePropagationEntry transientID).makeRoom bytesNeeded
        (Binary64.nearest (bytesCleaned + Binary64.nearest size)) weighted

def staleIDs (T : TimeText) (now : Time) : List Bytes :=
  (n.propagationEntries.entries.filter fun e => isStale T now e.1 e.2).map (·.1)

/-- The first loops of `cleanMessageStore`. -/
def removeStale (T : TimeText) (now : Time) : PropagationNode :=
  (n.staleIDs T now).foldl removePropagationEntry n

/-- `cleanMessageStore`; the IDs are given from the heaviest entry on. -/
def cleanMessageStore (T : TimeText) (now : Time) (weighted : List Bytes) : PropagationNode :=
  let fresh := n.removeStale T now
  let messageStorageSize := Binary64.nearest fresh.messageStorageSize
  if n.messageStorageLimit ≤ 0 ∨ messageStorageSize ≤ n.messageStorageLimit then fresh
  else fresh.makeRoom (Binary64.nearest (messageStorageSize - n.messageStorageLimit)) 0 weighted

/-- A restart up to `EnablePropagation`. The size of the store counts as zero there, and nothing is removed for it. -/
def enablePropagation (T : TimeText) (names : List Str) (now : Time) : PropagationNode :=
  (n.reindexPropagationStore T names).removeStale T now

end PropagationNode
end Reticulum.Lxmf
