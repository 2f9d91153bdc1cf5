import Reticulum.Ifac
import Reticulum.Packet
import Reticulum.Table

/-! The interfaces and the routing tables of a transport node, and how it frames the packets that it passes on
(rns/transport.go). -/

namespace Reticulum

inductive InterfaceKind where
  | network
  /-- The socket of a shared instance. -/
  | localServer
  /-- A client that a shared instance has accepted. -/
  | spawnedClient
  /-- The way of a client to its shared instance. -/
  | sharedInstance
deriving DecidableEq, Repr

inductive InterfaceMode where
  | full
  | pointToPoint
  | accessPoint
  | roaming
  | boundary
  | gateway
  | internal
deriving DecidableEq, Repr

/-- An interface is known by its number, as the source knows it by its address. -/
structure Interface where
  id : Nat
  kind : InterfaceKind := .network
  mode : InterfaceMode := .full
  announcesFromInternal : Bool := true
  announcesToInternal : Option Bool := none
  isOut : Bool := true
  status : Bool := true
  hash : Option Bytes := none
  ifac : Option Ifac := none

/-- `isLocalClientInterface`. -/
def Interface.isLocalClient (iface : Interface) : Bool := iface.kind = .spawnedClient

/-- The hop count of a packet that arrives on an interface. The planes of a shared instance count no hop. -/
def Packet.arrive (p : Packet) (iface : Interface) : Packet :=
  match iface.kind with
  | .spawnedClient | .sharedInstance => p
  | _ => { p with hops := p.hops + 1 }

structure PathEntry where
  nextHop : Bytes
  hops : Int
  interface : Option Interface

structure LinkEntry where
  nextHop : Bytes
  outboundInterface : Interface
  remainingHops : Int
  receivedInterface : Interface
  hops : Int
  destinationHash : Bytes
  validated : Bool := false

structure ReverseEntry where
  receivedInterface : Interface
  outboundInterface : Interface

structure LocalLink where
  attachedInterface : Option Interface := none
  closed : Bool := false

structure TransportSystem where
  /-- The hash of the identity. -/
  identity : Option Bytes := none
  enabled : Bool := true
  connectedToSharedInstance : Bool := false
  localHopsDelta : Nat := 0
  allowLinkPathRebalance : Bool := false
  interfaces : List Interface := []
  /-- The clients of the servers among the interfaces. -/
  spawnedClients : List Interface := []
  /-- The hashes of the destinations that are registered here. -/
  destinations : List Bytes := []
  links : Table LocalLink := ∅
  pathRequestHash : Bytes := []
  pathTable : Table PathEntry := ∅
  linkTable : Table LinkEntry := ∅
  reverseTable : Table ReverseEntry := ∅
  pendingPathRequests : Table (List Interface) := ∅
  length_identity : ∀ hash ∈ identity, hash.length = truncatedHashLength := by simp
  delta_le : localHopsDelta ≤ 7 := by decide

namespace TransportSystem

variable (ts : TransportSystem)

variable (p : Packet)

def isForLocalClient : Bool :=
  (ts.pathTable.lookup p.destinationHash).any fun entry => entry.hops = 0

def isForLocalClientLink : Bool :=
  (ts.linkTable.lookup p.destinationHash).any fun entry =>
    entry.receivedInterface.isLocalClient || entry.outboundInterface.isLocalClient

def proofForLocalClient : Bool :=
  (ts.reverseTable.lookup p.destinationHash).any fun entry => entry.receivedInterface.isLocalClient

def instanceLocalLink (entry : LinkEntry) : Bool :=
  entry.receivedInterface.isLocalClient && entry.outboundInterface.isLocalClient

def isPathRequestPacket : Bool :=
  p.packetType = .data && ts.pathRequestHash ≠ [] && p.destinationHash = ts.pathRequestHash

def shouldApplyDelta (iface : Interface) : Bool :=
  iface.kind ≠ .localServer && !ts.connectedToSharedInstance && p.hops = 0 && ts.localHopsDelta ≠ 0 &&
    p.destinationType ≠ .plain && p.destinationType ≠ .group && !iface.isLocalClient

def mangleHops (raw : Bytes) (hops : Nat) (transportInsert : Bool) : Bytes :=
  match raw with
  | flags :: _ :: rest =>
    if transportInsert then
      (flags ||| (HeaderType.header2.code <<< 6 ||| TransportType.forward.code <<< 4)) :: UInt8.ofNat hops ::
        (ts.identity.getD [] ++ rest)
    else flags :: UInt8.ofNat hops :: rest
  | _ => raw

def insertHopByte (iface : Interface) : UInt8 :=
  if ts.shouldApplyDelta p iface then UInt8.ofNat ts.localHopsDelta else p.raw.getD 1 0

def disguiseBroadcastRaw (iface : Interface) : Bytes :=
  if ts.shouldApplyDelta p iface then
    ts.mangleHops p.raw ts.localHopsDelta
      (p.packetType = .announce && p.headerType = .header1 && ts.identity.isSome)
  else p.raw

def forwardedHopByte (fromLocalClient localCase : Bool) : UInt8 :=
  if !fromLocalClient || localCase then UInt8.ofNat p.hops
  else if ts.localHopsDelta ≠ 0 then UInt8.ofNat ts.localHopsDelta
  else UInt8.ofNat p.hops

def mangleForwardedRaw (raw : Bytes) (fromLocalClient toLocalClient : Bool) : Bytes :=
  if ts.localHopsDelta = 0 || !fromLocalClient || toLocalClient then raw
  else ts.mangleHops raw ts.localHopsDelta false

end TransportSystem

def Packet.withHops (p : Packet) : Bytes := p.raw.set 1 (UInt8.ofNat p.hops)

def Packet.strip (p : Packet) : Bytes :=
  (p.flags &&& 0b00001111) :: UInt8.ofNat p.hops :: p.raw.drop (truncatedHashLength + 2)

def Packet.insertHeader (p : Packet) (hops : UInt8) (transportID rest : Bytes) : Bytes :=
  packFlags .header2 p.contextFlag .forward p.destinationType p.packetType :: hops :: (transportID ++ rest)

namespace TransportSystem

variable (ts : TransportSystem)

/-- A packet forwarded by the path table: another transport id, or for the last hop no transport header. -/
def forwardedRaw (p : Packet) (entry : PathEntry) : Bytes :=
  if 1 < entry.hops then
    let nextHop := entry.nextHop.take truncatedHashLength
    p.withHops.take 2 ++ nextHop ++ p.withHops.drop (2 + nextHop.length)
  else if entry.hops = 1 then p.strip
  else if ts.localHopsDelta ≠ 0 then p.strip
  else p.withHops

def reframeAnnounceForTransport (raw : Bytes) : Bytes :=
  match ts.identity, Packet.unpack raw with
  | some hash, some p =>
    if p.packetType ≠ .announce then raw
    else p.insertHeader (UInt8.ofNat p.hops) hash (p.destinationHash ++ p.context :: p.data)
  | _, _ => raw

end TransportSystem
end Reticulum
