import Reticulum.Announce
import Reticulum.Transport.Basic

/-! How a transport node takes announces into its path table (`handleAnnounce`, rns/transport.go). An announce is
validated first, which remembers the identity and the ratchet that it carries; an entry of the path table is replaced
if the announce is newer, or if there is another reason to prefer it. The rebroadcasts are not part of this.

Times are in nanoseconds. -/

namespace Reticulum

def second : Int := 1000000000

def randomBlobStart : Nat := Announce.keySize + Announce.nameHashLength

def randomBlobEnd : Nat := randomBlobStart + 10

/-- `announceEmissionFromPacket`. -/
def announceEmission (data : Bytes) : Nat :=
  if data.length < randomBlobEnd then 0 else beNat ((data.drop (randomBlobStart + 5)).take 5)

def announceRandomBlob (data : Bytes) : Option Bytes :=
  if randomBlobEnd ≤ data.length then some ((data.drop randomBlobStart).take 10) else none

def randomBlobTimebase (blob : Bytes) : Nat := if blob.length < 10 then 0 else beNat ((blob.drop 5).take 5)

def maxAnnounceTimebaseSkew : Int := 24 * 3600 * second

def plausibleAnnounceTimebase (tb : Nat) (now : Int) : Bool :=
  ¬(now / second + maxAnnounceTimebaseSkew / second) % 18446744073709551616 < tb

/-- One round of the loop of `timebaseFromRandomBlobs`. -/
def laterTimebase (now : Int) (timebase : Nat) (blob : Bytes) : Nat :=
  if blob.length < 10 then timebase
  else if plausibleAnnounceTimebase (randomBlobTimebase blob) now = false then timebase
  else if timebase < randomBlobTimebase blob then randomBlobTimebase blob
  else timebase

def timebaseFromRandomBlobs (blobs : List Bytes) (now : Int) : Nat := blobs.foldl (laterTimebase now) 0

def maxRandomBlobs : Nat := 64

def pathExpiryForInterface (iface : Interface) : Int :=
  match iface.mode with
  | .accessPoint => 24 * 3600 * second
  | .roaming => 6 * 3600 * second
  | _ => 7 * 24 * 3600 * second

inductive ResponsiveState where
  | unknown
  | responsive
  | unresponsive
deriving DecidableEq, Repr

structure PathRecord extends PathEntry where
  timestamp : Int
  expires : Int
  randomBlobs : List Bytes
  packet : Bytes
  packetHash : Bytes
  unresponsive : Bool := false
  responsiveState : ResponsiveState := .unknown

/-- An announce as it comes in on an interface, with the time, the gravities and whether it is limited. -/
structure AnnounceArrival where
  packet : Packet
  iface : Interface
  now : Int
  gravity : Interface → Int := fun _ => 0
  ingressLimited : Bool := false

namespace AnnounceArrival

variable (a : AnnounceArrival)

/-- What `ValidateAnnounce` reads. -/
def announce : Announce.Packet where
  packetType := a.packet.packetType
  contextFlag := a.packet.contextFlag
  pathResponse := a.packet.context = contextPathResponse
  destinationHash := a.packet.destinationHash
  data := a.packet.data
  packetHash := a.packet.getHash

def emitted : Nat := announceEmission a.packet.data

def randomBlob : Option Bytes := announceRandomBlob a.packet.data

/-- `nextHopFromAnnounce`. -/
def nextHop : Option Bytes :=
  if a.packet.transportID.getD [] ≠ [] then a.packet.transportID
  else if a.packet.destinationHash ≠ [] then some a.packet.destinationHash
  else none

def path (nextHop : Bytes) : PathRecord where
  timestamp := a.now
  nextHop
  hops := a.packet.hops
  randomBlobs := a.randomBlob.toList
  interface := some a.iface
  expires := a.now + pathExpiryForInterface a.iface
  packet := a.packet.raw
  packetHash := a.packet.getHash

end AnnounceArrival

namespace PathRecord

variable (entry : PathRecord) (a : AnnounceArrival)

def mark (state : ResponsiveState) : PathRecord :=
  { entry with unresponsive := state = .unresponsive, responsiveState := state }

def newBlob : Bool := a.randomBlob.any fun blob => blob ∉ entry.randomBlobs

def consider : PathRecord × Bool :=
  let pathTimebase := timebaseFromRandomBlobs entry.randomBlobs a.now
  if (a.packet.hops : Int) ≤ entry.hops then
    if entry.newBlob a && pathTimebase < a.emitted then (entry.mark .unknown, true)
    else if a.emitted = pathTimebase then
      if entry.unresponsive then (entry, true)
      else (entry, entry.interface.any fun current => a.gravity current < a.gravity a.iface)
    else (entry, false)
  else if ¬a.now < entry.expires then if entry.newBlob a then (entry.mark .unknown, true) else (entry, false)
  else if pathTimebase < a.emitted then if entry.newBlob a then (entry.mark .unknown, true) else (entry, false)
  else if a.emitted = pathTimebase then (entry, entry.unresponsive)
  else (entry, false)

/-- The blobs with one more; only the last ones are kept. -/
def addBlob (blobs : List Bytes) (blob : Bytes) : List Bytes :=
  if blob ∈ blobs then blobs
  else (blobs ++ [blob]).drop ((blobs ++ [blob]).length - maxRandomBlobs)

def replace (nextHop : Bytes) : PathRecord :=
  { a.path nextHop with randomBlobs := a.randomBlob.elim entry.randomBlobs (addBlob entry.randomBlobs) }

end PathRecord

structure AnnounceTables where
  known : Announce.Transport := {}
  /-- The hashes of the destinations of this node. -/
  destinations : List Bytes := []
  /-- The hashes that this node has requested paths for. -/
  pathRequests : List Bytes := []
  /-- The hashes that it relays path requests for. -/
  pendingPathRequests : List Bytes := []
  pathTable : Table PathRecord := ∅

namespace AnnounceTables

variable (ts : AnnounceTables)

def shouldHoldAnnounce (a : AnnounceArrival) : Bool :=
  (ts.pathTable.lookup a.packet.destinationHash).isNone && a.packet.destinationHash ∉ ts.pendingPathRequests &&
    a.packet.destinationHash ∉ ts.pathRequests && a.ingressLimited

def putPath (destHash : Bytes) (entry : PathRecord) : AnnounceTables :=
  { ts with pathTable := ts.pathTable.insert destHash entry }

def updatePath (a : AnnounceArrival) : AnnounceTables × Bool :=
  match ts.pathTable.lookup a.packet.destinationHash with
  | some entry =>
    let (entry, shouldReplace) := entry.consider a
    if shouldReplace then
      match a.nextHop with
      | none => (ts.putPath a.packet.destinationHash entry, false)
      | some nextHop => (ts.putPath a.packet.destinationHash (entry.replace a nextHop), true)
    else (ts, false)
  | none =>
    match a.nextHop with
    | none => (ts, false)
    | some nextHop => (ts.putPath a.packet.destinationHash (a.path nextHop), true)

def handleAnnounce (keys : Announce.Keys) (a : AnnounceArrival) : AnnounceTables × Bool :=
  let (valid, known) := Announce.validateAnnounce keys ts.known a.announce
  let ts := { ts with known }
  if valid = false then (ts, false)
  else if a.packet.destinationHash ∈ ts.destinations then (ts, false)
  else if ts.shouldHoldAnnounce a then (ts, false)
  else ts.updatePath a

/-- `MarkPathUnresponsive`, `MarkPathResponsive` and `MarkPathUnknownState`. -/
def markPath (destHash : Bytes) (state : ResponsiveState) : AnnounceTables :=
  match ts.pathTable.lookup destHash with
  | none => ts
  | some entry => ts.putPath destHash (entry.mark state)

/-- `GetRatchet`, with what it would load from the disk. -/
def getRatchet (destHash : Bytes) (stored : Option Bytes) : Option Bytes :=
  match ts.known.knownRatchets.lookup destHash with
  | some pub => some pub
  | none => stored

end AnnounceTables

inductive PathEvent where
  | announce (a : AnnounceArrival)
  | mark (destHash : Bytes) (state : ResponsiveState)

def AnnounceTables.step (keys : Announce.Keys) (ts : AnnounceTables) : PathEvent → Option AnnounceTables
  | .announce a => some (ts.handleAnnounce keys a).1
  | .mark destHash state => some (ts.markPath destHash state)

end Reticulum
