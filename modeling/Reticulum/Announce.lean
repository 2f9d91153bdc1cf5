import Reticulum.Packet
import Reticulum.Table

/-! # Announces (rns/identity.go, rns/destination.go) -/

namespace Reticulum.Announce

def keySize : Nat := 64
def nameHashLength : Nat := 10
def randomHashLength : Nat := 10
def ratchetSize : Nat := 32
def signatureLength : Nat := 64

/-- What an announce sets in a packet, and what is read of one. -/
structure Packet where
  packetType : PacketType
  contextFlag : Bool
  /-- Whether the context is `ContextPathResponse`. -/
  pathResponse : Bool := false
  destinationHash : Bytes
  data : Bytes
  /-- Set when the packet is packed or unpacked. -/
  packetHash : Bytes := []
deriving DecidableEq

/-- A destination of an identity, with the public parts of its ratchets, if enabled, the newest first. -/
structure Destination where
  single : Bool := true
  incoming : Bool := true
  publicKey : Bytes
  nameHash : Bytes
  defaultAppData : Bytes := []
  ratchets : Option (List Bytes) := none
  retainedRatchets : Nat := 512
  length_publicKey : publicKey.length = keySize
  length_nameHash : nameHash.length = nameHashLength
  length_ratchets : ∀ rs, ratchets = some rs → ∀ r ∈ rs, r.length = ratchetSize

abbrev RatchetKey := { r : Bytes // r.length = ratchetSize }

/-- What a call of `buildAnnouncePacket` finds: randomness, the time, a ratchet that is due, and whether it is saved. -/
structure Call where
  destination : Destination
  appData : Option Bytes
  pathResponse : Bool := false
  randPart : Bytes
  nowUnix : Int
  rotationDue : Bool := false
  newRatchet : Option RatchetKey := none
  persisted : Bool := true

namespace Destination

def hash (d : Destination) : Bytes := truncatedHash (d.nameHash ++ truncatedHash d.publicKey)

end Destination

namespace Call

def rotateRatchets (c : Call) (ratchets : List Bytes) : Option (List Bytes) :=
  if c.rotationDue then
    match c.newRatchet with
    | none => none
    | some key => if c.persisted then some ((key.1 :: ratchets).take c.destination.retainedRatchets) else none
  else some ratchets

/-- The ratchet of the announce; empty if it has none. -/
def ratchet (c : Call) : Option Bytes :=
  match c.destination.ratchets with
  | none => some []
  | some ratchets => (c.rotateRatchets ratchets).map fun ratchets => ratchets.headD []

def effectiveAppData (c : Call) : Bytes := c.appData.getD c.destination.defaultAppData

def randomHash (c : Call) : Bytes :=
  (truncatedHash c.randPart).take 5 ++
    (List.range 5).map fun i => (c.nowUnix / 256 ^ (4 - i) % 256).toNat.toUInt8

def signedData (c : Call) (ratchet : Bytes) : Bytes :=
  c.destination.hash ++ c.destination.publicKey ++ c.destination.nameHash ++ c.randomHash ++ ratchet ++
    c.effectiveAppData

/-- `buildAnnouncePacket`. Signing fails without a private key. -/
def buildAnnouncePacket (sign : Bytes → Option Bytes) (c : Call) : Option Packet :=
  if c.destination.single = false then none
  else if c.destination.incoming = false then none
  else
    match c.ratchet with
    | none => none
    | some ratchet =>
      match sign (c.signedData ratchet) with
      | none => none
      | some signature => some {
          packetType := .announce
          contextFlag := ratchet ≠ []
          pathResponse := c.pathResponse
          destinationHash := c.destination.hash
          data := c.destination.publicKey ++ c.destination.nameHash ++ c.randomHash ++ ratchet ++ signature ++
            c.effectiveAppData }

end Call

/-- Whether a public key can be loaded, and whether its signing half verifies a signature of a message. -/
structure Keys where
  loads : Bytes → Bool
  verify : Bytes → Bytes → Bytes → Bool

/-- An entry of `knownDestinations`. -/
structure Known where
  packetHash : Bytes
  publicKey : Bytes
  appData : Bytes
deriving DecidableEq

structure Transport where
  knownDestinations : Table Known := ∅
  knownRatchets : Table Bytes := ∅

namespace Transport

def remember (ts : Transport) (packetHash destHash publicKey appData : Bytes) : Transport :=
  { ts with knownDestinations := ts.knownDestinations.insert destHash { packetHash, publicKey, appData } }

def setRatchet (ts : Transport) (destHash ratchetPub : Bytes) : Transport :=
  if destHash = [] ∨ ratchetPub = [] then ts
  else if ts.knownRatchets.lookup destHash = some ratchetPub then ts
  else { ts with knownRatchets := ts.knownRatchets.insert destHash ratchetPub }

end Transport

structure Fields where
  publicKey : Bytes
  nameHash : Bytes
  randomHash : Bytes
  ratchet : Bytes
  signature : Bytes
  appData : Bytes
deriving DecidableEq

/-- The parts of the data; `none` if it is too short. Only the flag tells whether there is a ratchet. -/
def fields (contextFlag : Bool) (data : Bytes) : Option Fields :=
  let ratchetLength := if contextFlag then ratchetSize else 0
  if data.length < keySize + nameHashLength + randomHashLength + signatureLength + ratchetLength then none
  else
    let afterKey := data.drop keySize
    let afterName := afterKey.drop nameHashLength
    let afterRandom := afterName.drop randomHashLength
    let afterRatchet := afterRandom.drop ratchetLength
    some {
      publicKey := data.take keySize
      nameHash := afterKey.take nameHashLength
      randomHash := afterName.take randomHashLength
      ratchet := afterRandom.take ratchetLength
      signature := afterRatchet.take signatureLength
      appData := afterRatchet.drop signatureLength }

def Fields.signedData (f : Fields) (destinationHash : Bytes) : Bytes :=
  destinationHash ++ f.publicKey ++ f.nameHash ++ f.randomHash ++ f.ratchet ++ f.appData

def validateAnnounce (keys : Keys) (ts : Transport) (packet : Packet) : Bool × Transport :=
  if packet.packetType ≠ .announce then (false, ts)
  else
    match fields packet.contextFlag packet.data with
    | none => (false, ts)
    | some f =>
      if keys.loads f.publicKey = false then (false, ts)
      else if keys.verify f.publicKey f.signature (f.signedData packet.destinationHash) = false then (false, ts)
      else if packet.destinationHash ≠ truncatedHash (f.nameHash ++ truncatedHash f.publicKey) then (false, ts)
      else (true, (ts.remember packet.packetHash packet.destinationHash f.publicKey f.appData).setRatchet
        packet.destinationHash f.ratchet)

end Reticulum.Announce
