import Reticulum.Channel
import Reticulum.Link
import Reticulum.Transitions

/-! The messages of a channel on their way from the peer that sends them to the link that receives them (rns/link.go,
rns/channel.go).

The peer numbers its messages 0, 1, 2, ...; the envelope carries the number as a uint16. The network may lose, repeat
and reorder the packets. -/

namespace Reticulum

variable {M P : Type}

structure ChannelLink (M P : Type) where
  status : LinkStatus
  channel : Option (Channel M P)

namespace ChannelLink

/-- `Link.receive`, given what the data decrypts to. The packet is proved before the channel sees it. -/
def receive (l : ChannelLink M P) (plaintext : Option Bytes) (packet : P) :
    ChannelLink M P × List (ChannelEffect M P) :=
  let status := l.status.revive
  if status = .closed then ({ l with status }, [])
  else
    match plaintext with
    | none => ({ l with status }, [])
    | some data =>
      match l.channel with
      | none => ({ l with status }, [.prove packet])
      | some channel =>
        let r := channel.receive data (some packet)
        ({ status, channel := some r.1 }, .prove packet :: r.2)

def handed (l : ChannelLink M P) (plaintext : Option Bytes) (packet : P) : List (Envelope M P) :=
  if l.status.revive = .closed then []
  else
    match plaintext, l.channel with
    | some data, some channel => channel.handed data (some packet)
    | _, _ => []

end ChannelLink

/-- A message that fits into an envelope and is read back by the factory that the receiver has for its type. -/
structure Outgoing (factories : UInt16 → Option (MessageFactory M)) where
  msgType : UInt16
  data : Bytes
  message : M
  fits : data.length < 65536
  registered : ∃ factory, factories msgType = some factory ∧ factory data = some message

variable {factories : UInt16 → Option (MessageFactory M)}

/-- The payload of the message with the number `n`. -/
def payload (messages : Nat → Outgoing factories) (n : Nat) : Bytes :=
  Envelope.pack (messages n).msgType (UInt16.ofNat n) (messages n).data

/-- How many messages the peer has sent, the receiving link, and the envelopes handed to the handlers. -/
structure Delivery (M : Type) where
  sent : Nat
  link : ChannelLink M Nat
  handed : List (Envelope M Nat)

namespace Delivery

inductive Event where
  | send
  | deliver (n : Nat)

def start (factories : UInt16 → Option (MessageFactory M)) (handlers : List (MessageHandlerEntry M)) : Delivery M where
  sent := 0
  link := ⟨.active, some { messageFactories := factories, messageHandlers := handlers }⟩
  handed := []

/-- The packet of the message `n` arrives. -/
def arrive (messages : Nat → Outgoing factories) (w : Delivery M) (n : Nat) : Delivery M where
  sent := w.sent
  link := (w.link.receive (some (payload messages n)) n).1
  handed := w.handed ++ w.link.handed (some (payload messages n)) n

def step (messages : Nat → Outgoing factories) (w : Delivery M) : Event → Option (Delivery M)
  | .send => some { w with sent := w.sent + 1 }
  | .deliver n => if n < w.sent then some (w.arrive messages n) else none

end Delivery

end Reticulum
