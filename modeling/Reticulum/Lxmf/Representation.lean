import Reticulum.Lxmf.Upload

/-! # Packets for messages (lxmf/router.go, lxmf/message.go, rns/packet.go, rns/crypto/token.go)

The router chooses between a packet and a resource by the length of the message. Whether the packet can be sent is decided
later, when it has been encrypted and has its header. -/

namespace Reticulum

def pkcs7Pad (data : Bytes) (blockSize : Nat) : Bytes :=
  data ++ List.replicate (blockSize - data.length % blockSize) (blockSize - data.length % blockSize).toUInt8

structure TokenCipher where
  iv : Bytes
  cbcEncrypt : Bytes → Bytes
  mac : Bytes → Bytes
  iv_length : iv.length = 16
  cbcEncrypt_length : ∀ data, (cbcEncrypt data).length = data.length
  mac_length : ∀ data, (mac data).length = 32

/-- `(*Token).Encrypt`. -/
def TokenCipher.encrypt (token : TokenCipher) (data : Bytes) : Bytes :=
  let signedParts := token.iv ++ token.cbcEncrypt (pkcs7Pad data 16)
  signedParts ++ token.mac signedParts

/-- A link or a destination. The ephemeral key is for a destination that is encrypted for. -/
structure PacketTarget where
  type : DestinationType
  hash : Bytes
  token : TokenCipher
  ephemeralKey : Bytes
  hash_length : hash.length = 16
  ephemeralKey_length : ephemeralKey.length = 32

namespace PacketTarget

/-- `Encrypt` of a link or a destination, where it succeeds. -/
def encrypt (target : PacketTarget) (data : Bytes) : Bytes :=
  match target.type with
  | .plain => data
  | .link => target.token.encrypt data
  | .single | .group => target.ephemeralKey ++ target.token.encrypt data

/-- `(*Packet).Pack` of a new data packet: the bytes to send, unless there are too many. -/
def pack (target : PacketTarget) (data : Bytes) : Option Bytes :=
  let raw := [packFlags .header1 false .broadcast target.type .data, 0] ++ target.hash ++ [0] ++ target.encrypt data
  if raw.length > packetMTU then none else some raw

end PacketTarget

namespace Lxmf

def encryptedPacketMaxContent : Nat :=
  packetMDU + 8 - (2 * destinationLength + signatureLength + 8 + 8) + destinationLength

/-- `sendMessagePacketLocked` sends on the link to the propagation node, on a direct link, or to the destination. -/
inductive Route where
  | propagation (link : PacketTarget) (h : link.type = .link)
  | direct (link : PacketTarget) (h : link.type = .link)
  | raw (method : Method) (destination : PacketTarget) (hmethod : method ≠ .propagated) (h : destination.type ≠ .link)

namespace Route

def method : Route → Method
  | propagation .. => .propagated
  | direct .. => .direct
  | raw method .. => method

def target : Route → PacketTarget
  | propagation link _ => link
  | direct link _ => link
  | raw _ destination .. => destination

def data (p : Parcel) : Route → Bytes
  | propagation .. => (p.propagationPacked.map (·.bytes)).getD []
  | direct .. => p.packed
  | raw method .. =>
    if method = .opportunistic ∨ method = .direct then p.packed.drop destinationLength else p.packed

def packet (route : Route) (p : Parcel) : Option Bytes := route.target.pack (route.data p)

/-- The message as `sendMessageLocked` finds it. -/
def message (route : Route) (p : Parcel) (m : OutboundMessage) : OutboundMessage :=
  { p.onto m with method := some route.method }

end Route

/-- The end of `Pack`, where the representation is chosen for some methods; `none` if it fails. -/
def Parcel.finishPack (p : Parcel) (desiredMethod : Method) (f : PropagatedFacts) : Option Parcel :=
  match desiredMethod with
  | .opportunistic =>
    if p.packed.length > encryptedPacketMaxContent then none else some { p with representation := .packet }
  | .propagated => p.packPropagated f
  | .direct | .paper => some p

end Lxmf
end Reticulum
