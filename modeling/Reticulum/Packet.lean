import Reticulum.Crypto

/-! Packets on the wire (rns/packet.go). A frame is a byte of flags, the hop count, the transport id if the header has
one, the destination hash, the context and the data. -/

namespace Reticulum

def pathfinderM : Nat := 128

/-- `MTU`. -/
def packetMTU : Nat := 500

/-- `MDU`. -/
def packetMDU : Nat := (packetMTU - 1 - 19 - 48) / 16 * 16 - 1

inductive HeaderType where
  | header1
  | header2
deriving DecidableEq, Repr

inductive TransportType where
  | broadcast
  | forward
deriving DecidableEq, Repr

inductive DestinationType where
  | single
  | group
  | plain
  | link
deriving DecidableEq, Repr

inductive PacketType where
  | data
  | announce
  | linkRequest
  | proof
deriving DecidableEq, Repr

def HeaderType.code : HeaderType → UInt8
  | header1 => 0
  | header2 => 1

def TransportType.code : TransportType → UInt8
  | broadcast => 0
  | forward => 1

def DestinationType.code : DestinationType → UInt8
  | single => 0
  | group => 1
  | plain => 2
  | link => 3

def PacketType.code : PacketType → UInt8
  | data => 0
  | announce => 1
  | linkRequest => 2
  | proof => 3

def packFlags (headerType : HeaderType) (contextFlag : Bool) (transportType : TransportType)
    (destinationType : DestinationType) (packetType : PacketType) : UInt8 :=
  (headerType.code <<< 6) ||| ((if contextFlag then 1 else 0 : UInt8) <<< 5) ||| (transportType.code <<< 4) |||
    (destinationType.code <<< 2) ||| packetType.code

def HeaderType.ofFlags (flags : UInt8) : HeaderType :=
  if (flags &&& 0b01000000) >>> 6 = 1 then header2 else header1

def TransportType.ofFlags (flags : UInt8) : TransportType :=
  if (flags &&& 0b00010000) >>> 4 = 1 then forward else broadcast

def DestinationType.ofFlags (flags : UInt8) : DestinationType :=
  match (flags &&& 0b00001100) >>> 2 with
  | 0 => single
  | 1 => group
  | 2 => plain
  | _ => link

def PacketType.ofFlags (flags : UInt8) : PacketType :=
  match flags &&& 0b00000011 with
  | 0 => data
  | 1 => announce
  | 2 => linkRequest
  | _ => proof

def contextResourcePrf : UInt8 := 0x05
def contextPathResponse : UInt8 := 0x0b
def contextLrproof : UInt8 := 0xff

structure Packet where
  raw : Bytes
  flags : UInt8
  hops : Nat
  headerType : HeaderType
  contextFlag : Bool
  transportType : TransportType
  destinationType : DestinationType
  packetType : PacketType
  transportID : Option Bytes
  destinationHash : Bytes
  context : UInt8
  data : Bytes
deriving DecidableEq, Repr

namespace Packet

def unpackAt (raw : Bytes) (offset : Nat) (transportID : Option Bytes) : Packet where
  raw
  flags := raw.getD 0 0
  hops := (raw.getD 1 0).toNat
  headerType := .ofFlags (raw.getD 0 0)
  contextFlag := (raw.getD 0 0 &&& 0b00100000) >>> 5 = 1
  transportType := .ofFlags (raw.getD 0 0)
  destinationType := .ofFlags (raw.getD 0 0)
  packetType := .ofFlags (raw.getD 0 0)
  transportID
  destinationHash := (raw.drop offset).take truncatedHashLength
  context := raw.getD (offset + truncatedHashLength) 0
  data := raw.drop (offset + truncatedHashLength + 1)

/-- `Unpack`; none for an error. -/
def unpack (raw : Bytes) : Option Packet :=
  if raw.length < 3 ∨ pathfinderM ≤ (raw.getD 1 0).toNat then none
  else
    match HeaderType.ofFlags (raw.getD 0 0) with
    | .header1 => if raw.length < truncatedHashLength + 3 then none else some (unpackAt raw 2 none)
    | .header2 =>
      if raw.length < 2 * truncatedHashLength + 3 then none
      else some (unpackAt raw (truncatedHashLength + 2) (some ((raw.drop 2).take truncatedHashLength)))

/-- `GetHashablePart`. Only the lower four bits of the flags are hashed. -/
def getHashablePart (p : Packet) : Bytes :=
  (p.raw.getD 0 0 &&& 0b00001111) ::
    match p.headerType with
    | .header1 => p.raw.drop 2
    | .header2 => p.raw.drop (truncatedHashLength + 2)

def getHash (p : Packet) : Bytes := fullHash p.getHashablePart

def getTruncatedHash (p : Packet) : Bytes := truncatedHash p.getHashablePart

end Packet

def linkECPubSize : Nat := 64

/-- `LinkIDFromLR`. The signalling bytes after the keys do not count. -/
def linkIDFromLR (packet : Packet) : Bytes :=
  let hashablePart := packet.getHashablePart
  truncatedHash (hashablePart.take (hashablePart.length - (packet.data.length - linkECPubSize)))

end Reticulum
