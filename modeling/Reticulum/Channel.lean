import Reticulum.Bytes

/-! # The channel: sequenced delivery of messages over a link (rns/channel.go)

The receiving half: envelopes are placed in the receive ring by their 16-bit sequence number, and the run that starts at
the awaited number is handed to the message handlers. -/

namespace Reticulum

def channelWindowMaxFast : UInt16 := 48

def channelSeqMax : UInt16 := 0xFFFF

/-- What `messageFactories` holds for a registered type: a fresh message's `Unpack`. -/
abbrev MessageFactory (M : Type) := Bytes → Option M

/-- An envelope that `Unpack` filled in, with the packet that carried it (none for a nil packet). -/
structure Envelope (M P : Type) where
  sequence : UInt16
  message : M
  packet : Option P
deriving DecidableEq, Repr

namespace Envelope
variable {M P : Type}

/-- `Envelope.Unpack`: msgtype(2), sequence(2), length(2), data. Bytes after the data are ignored. -/
def unpack (factories : UInt16 → Option (MessageFactory M)) (raw : Bytes) (packet : Option P) : Option (Envelope M P) :=
  match raw with
  | t1 :: t0 :: s1 :: s0 :: l1 :: l0 :: data =>
    let length := (beUint16 l1 l0).toNat
    if data.length < length then none
    else do
      let factory ← factories (beUint16 t1 t0)
      let message ← factory (data.take length)
      return { sequence := beUint16 s1 s0, message, packet }
  | _ => none

/-- `Envelope.Pack` of a message of the given type that packs to the data. The length field is a uint16. -/
def pack (msgType sequence : UInt16) (data : Bytes) : Bytes :=
  putUint16 msgType ++ putUint16 sequence ++ putUint16 (UInt16.ofNat data.length) ++ data

theorem unpack_pack {factories : UInt16 → Option (MessageFactory M)} {msgType sequence : UInt16} {data : Bytes}
    {factory : MessageFactory M} {message : M} {packet : Option P} (hlength : data.length < 65536)
    (hfactory : factories msgType = some factory) (hdata : factory data = some message) :
    unpack factories (pack msgType sequence data) packet = some { sequence, message, packet } := by
  have hlen : (UInt16.ofNat data.length).toNat = data.length := UInt16.toNat_ofNat_of_lt' hlength
  simp only [pack, putUint16, List.cons_append, List.nil_append, unpack, beUint16_putUint16, hlen, lt_irrefl,
    if_false, List.take_length, hfactory, Option.bind_eq_bind, Option.bind_some, hdata]
  rfl

end Envelope

/-- An entry of `messageHandlers`. -/
structure MessageHandlerEntry (M : Type) where
  id : UInt64
  handler : M → Bool

/-- The fields of a `Channel` that receiving reads and writes. -/
structure Channel (M P : Type) where
  rxRing : List (Envelope M P) := []
  nextRXSequence : UInt16 := 0
  messageFactories : UInt16 → Option (MessageFactory M)
  messageHandlers : List (MessageHandlerEntry M) := []

/-- A packet is proved, or a message goes to `handleMessage`, which calls the listed handlers. -/
inductive ChannelEffect (M P : Type) where
  | prove (packet : P)
  | handle (message : M) (handlers : List UInt64)
deriving DecidableEq, Repr

namespace Channel
variable {M P : Type}

/-- `emplaceEnvelope` on one ring; `none` is the result false, and the ring is then as before. -/
def emplaceEnvelope (nextRXSequence : UInt16) (env : Envelope M P) : List (Envelope M P) → Option (List (Envelope M P))
  | [] => some [env]
  | existing :: ring =>
    if env.sequence = existing.sequence then none
    else if env.sequence < existing.sequence then
      -- The subtraction is on uint16: it wraps below zero.
      if nextRXSequence - env.sequence > channelSeqMax / 2 then
        (emplaceEnvelope nextRXSequence env ring).map (existing :: ·)
      else some (env :: existing :: ring)
    else (emplaceEnvelope nextRXSequence env ring).map (existing :: ·)

/-- The contiguous envelopes at the front of the ring, the ring that is left, and the next awaited number. -/
def contiguous (next : UInt16) : List (Envelope M P) → List (Envelope M P) × List (Envelope M P) × UInt16
  | [] => ([], [], next)
  | e :: ring =>
    if e.sequence = next then
      let r := contiguous (next + 1) ring
      (e :: r.1, r.2)
    else ([], e :: ring, next)

/-- `handleMessage`: the handlers that are called, in order, until one of them returns true. -/
def handleMessage (message : M) : List (MessageHandlerEntry M) → List UInt64
  | [] => []
  | entry :: rest => entry.id :: if entry.handler message then [] else handleMessage message rest

/-- The duplicate detection and window check of `Receive`: true when the sequence number is dropped. -/
def invalidSequence (next sequence : UInt16) : Bool :=
  if sequence < next then
    let windowOverflow := next + channelWindowMaxFast
    if windowOverflow < next then sequence > windowOverflow else true
  else false

/-- `Receive` of a raw payload. -/
def receive (c : Channel M P) (raw : Bytes) (packet : Option P) : Channel M P × List (ChannelEffect M P) :=
  match Envelope.unpack c.messageFactories raw packet with
  | none => (c, [])
  | some env =>
    if invalidSequence c.nextRXSequence env.sequence then (c, [])
    else
      match emplaceEnvelope c.nextRXSequence env c.rxRing with
      | none => (c, [])
      | some ring =>
        let (contiguous, rxRing, nextRXSequence) := contiguous c.nextRXSequence ring
        ({ c with rxRing, nextRXSequence },
          env.packet.toList.map .prove ++
            contiguous.map fun e => .handle e.message (handleMessage e.message c.messageHandlers))

def handed (c : Channel M P) (raw : Bytes) (packet : Option P) : List (Envelope M P) :=
  match Envelope.unpack c.messageFactories raw packet with
  | none => []
  | some env =>
    if invalidSequence c.nextRXSequence env.sequence then []
    else ((emplaceEnvelope c.nextRXSequence env c.rxRing).map fun ring => (contiguous c.nextRXSequence ring).1).getD []

def receiveAll (c : Channel M P) : List (Bytes × Option P) → Channel M P × List (ChannelEffect M P)
  | [] => (c, [])
  | (raw, packet) :: rest =>
    let (c', out) := c.receive raw packet
    let (c'', out') := c'.receiveAll rest
    (c'', out ++ out')

end Channel

end Reticulum
