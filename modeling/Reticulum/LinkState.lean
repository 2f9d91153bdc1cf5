import Reticulum.Link
import Reticulum.Receipts
import Reticulum.Threads

/-! How a link is established and closed (rns/link.go). A step is what runs under the lock of the link. Clocks are left
out: whether a time has come is decided outside. -/

namespace Reticulum

/-- What links use of the package `rns/crypto`. -/
structure LinkCrypto where
  /-- `X25519PrivateKey.Exchange`; none for an error. -/
  exchange : Bytes → Bytes → Option Bytes
  /-- `Ed25519PublicKey.Verify` of a key, a signature and a message. -/
  verify : Bytes → Bytes → Bytes → Bool

inductive LinkMode where
  | aes128cbc
  | aes256cbc
deriving DecidableEq, Repr

structure Link where
  initiator : Bool
  status : LinkStatus
  mode : LinkMode := .aes256cbc
  linkID : Bytes
  prv : Bytes
  destinationKey : Bytes
  expectedHops : Nat := 0
  peerPubBytes : Bytes := []
  peerPub : Option Bytes := none
  peerSigPubBytes : Bytes := []
  peerSigPub : Option Bytes := none
  sharedKey : Bytes := []
  derivedKey : Bytes := []
  /-- The key of the token. -/
  token : Option Bytes := none
  /-- A callback for the end of the link is set. -/
  closedCallback : Bool := false
  /-- How often it has been started. -/
  closures : Nat := 0
deriving DecidableEq, Repr

def contextLrrtt : UInt8 := 0xfe
def contextLinkClose : UInt8 := 0xfc

def linkMTUSize : Nat := 3

namespace Link

variable (crypto : LinkCrypto) (l : Link)

/-- `LoadPeer`, and whether it succeeds. -/
def loadPeer (pubBytes sigPubBytes : Bytes) : Link × Bool :=
  if pubBytes.length ≠ 32 then ({ l with peerPubBytes := pubBytes, peerPub := none }, false)
  else
    let l := { l with peerPubBytes := pubBytes, peerPub := some pubBytes, peerSigPubBytes := sigPubBytes }
    if sigPubBytes.length ≠ 32 then ({ l with peerSigPub := none }, false)
    else ({ l with peerSigPub := some sigPubBytes }, true)

def derivedKeyLength : Nat :=
  match l.mode with
  | .aes128cbc => 32
  | .aes256cbc => 64

def handshake : Link × Bool :=
  if l.status ≠ .pending ∧ l.status ≠ .handshake then (l, false)
  else
    match l.peerPub with
    | none => (l, false)
    | some peerPub =>
      match crypto.exchange l.prv peerPub with
      | none => ({ l with sharedKey := [] }, false)
      | some sharedKey =>
        match hkdf l.derivedKeyLength sharedKey l.linkID [] with
        | none => ({ l with sharedKey, derivedKey := [] }, false)
        | some derivedKey =>
          if derivedKey.length = 32 ∨ derivedKey.length = 64 then
            ({ l with sharedKey, derivedKey, token := some derivedKey, status := .handshake }, true)
          else ({ l with sharedKey, derivedKey, token := none }, false)

/-- `verifyProofSignatureLocked`. -/
def verifyProofSignature (data : Bytes) : Bool :=
  if data.length < 64 + 32 then false
  else
    let sigBytes := if data.length = 64 + 32 + linkMTUSize then data.drop 96 else []
    let peerSigPubBytes := l.destinationKey.drop 32
    crypto.verify peerSigPubBytes (data.take 64)
      (l.linkID ++ (data.drop 64).take 32 ++ peerSigPubBytes ++ sigBytes)

/-- `ValidateProof` up to the activation; the keys are derived before the signature is checked. -/
def validateProof (data : Bytes) : Link × Bool :=
  if l.status ≠ .pending then (l, false)
  else if data.length < 64 + 32 then (l, false)
  else
    let (l, loaded) := l.loadPeer ((data.drop 64).take 32) (l.destinationKey.drop 32)
    if !loaded then (l, false)
    else
      let (l, agreed) := l.handshake crypto
      if !agreed then (l, false)
      else if !l.verifyProofSignature crypto data then (l, false)
      else ({ l with status := .active }, true)

def setExpectedHops (hops : Nat) : Link := { l with expectedHops := hops }

structure ProofPacket where
  hops : Nat
  data : Bytes
deriving DecidableEq, Repr

/-- `deliverLinkProof`: a proof with an unexpected hop count is let through only if its signature holds. -/
def deliverLinkProof (allowLinkPathRebalance : Bool) (packet : ProofPacket) : Link × Bool :=
  if l.status ≠ .pending then (l, false)
  else if packet.hops = l.expectedHops then l.validateProof crypto packet.data
  else if allowLinkPathRebalance && l.verifyProofSignature crypto packet.data then
    (l.setExpectedHops packet.hops).validateProof crypto packet.data
  else (l, false)

def close : Link :=
  { l with status := .closed, closures := if l.closedCallback then l.closures + 1 else l.closures }

/-- The locked section of `receive`: a packet revives a stale link, unless it is the initiator's own keepalive. -/
def noteInbound (context : UInt8) (data : Bytes) : Link :=
  if l.status ≠ .closed ∧ ¬(l.initiator = true ∧ context = contextKeepalive ∧ data.head? = some 0xff) then
    { l with status := l.status.revive }
  else l

inductive Point where
  | receive (context : UInt8) (data : Bytes)
  | validateProof (data : Bytes)
  /-- The first section of `HandleRTT`. -/
  | handleRTT
  /-- The second one, after the packet has been decrypted and read. -/
  | finishRTT
  | watchdogStep
  | closeStale
  | teardown
deriving DecidableEq, Repr

/-- Where `receive` goes on; the input says whether a packet that closes the link names it. -/
def Point.afterReceive (initiator : Bool) (context : UInt8) (data : Bytes) (input : Bool) : List Point :=
  if context = contextLrproof then [.validateProof data]
  else if context = contextLrrtt then if initiator then [] else [.handleRTT]
  else if context = contextLinkClose ∧ input = true then [.teardown]
  else []

/-- One section. The input says what the link does not decide: that a packet can be read, that a time has come. -/
def exec : Point → Bool → Option (Link × List Point)
  | .receive context data, input =>
    some (l.noteInbound context data, Point.afterReceive l.initiator context data input)
  | .validateProof data, _ => some ((l.validateProof crypto data).1, [])
  | .handleRTT, input =>
    if l.status.awaitsRTT then some (l, [if input then .finishRTT else .teardown]) else some (l, [])
  | .finishRTT, _ => some ({ l with status := .active }, [])
  | .watchdogStep, input =>
    match l.status with
    | .closed => some (l, [])
    | .pending | .handshake => some (if input then l.close else l, [])
    | .active => some (if input then { l with status := .stale } else l, [])
    | .stale => some (l, [.closeStale])
  | .closeStale, _ | .teardown, _ => some (if l.status = .closed then l else l.close, [])

def Point.entry : Point → Bool
  | receive _ _ | validateProof _ | handleRTT | watchdogStep | teardown => true
  | finishRTT | closeStale => false

def system : Threads.System Link Point Bool where
  entry := Point.entry
  exec l := l.exec crypto

end Link
end Reticulum
