import Reticulum.LinkState

/-! Link requests (rns/link.go): what an initiator sends, and the link that a destination makes of it. Both sides and
the nodes between them know the link by `linkIDFromLR`. -/

namespace Reticulum

def LinkMode.code : LinkMode → Nat
  | aes128cbc => 0
  | aes256cbc => 1

/-- `signallingBytes`, given whether the transport discovers the MTU of links. -/
def signallingBytes (linkMTUDiscovery : Bool) (mtu : Nat) (mode : LinkMode) : Bytes :=
  if !linkMTUDiscovery then []
  else beBytes 3 ((mtu &&& 0x1fffff) + (((mode.code <<< 5) &&& 0xe0) <<< 16))

namespace Link

/-- The packet that `Establish` makes: the two public keys of the link and the signalling bytes. -/
def requestPacket (destinationHash pubBytes sigPubBytes signalling : Bytes) : Packet :=
  Packet.unpackAt
    (packFlags .header1 false .broadcast .single .linkRequest :: 0 ::
      (destinationHash ++ 0 :: (pubBytes ++ sigPubBytes ++ signalling))) 2 none

/-- `ValidateRequest` before the proof is sent, with the new link's key and the destination's; none for an error. -/
def validateRequest (crypto : LinkCrypto) (prv destinationKey : Bytes) (packet : Packet) : Option Link :=
  if packet.data.length < linkECPubSize then none
  else
    let l : Link := { initiator := false, status := .pending, linkID := [], prv, destinationKey }
    let (l, loaded) := l.loadPeer (packet.data.take 32) ((packet.data.drop 32).take 32)
    if !loaded then none
    else
      let (l, agreed) := { l with linkID := linkIDFromLR packet }.handshake crypto
      if !agreed then none else some l

end Link
end Reticulum
