import Reticulum.Channel
import Reticulum.Link
import Reticulum.Receipts

/-! The sending half of a channel over a link (rns/channel.go, rns/link.go, rns/packet.go).

A message keeps a place in the send ring until a proof of its packet arrives; the receipt of the packet calls back into
the channel. A step is what a call does under a lock or in the outlet. A packet, its receipt and the attempts of its
envelope go by the number of the packet. Clocks are left out: a receipt may time out at any moment. -/

namespace Reticulum

/-- What `Send` reads of a message: its type, and what its `Pack` returns (none for an error). -/
structure Message where
  msgType : UInt16
  data : Option Bytes
deriving DecidableEq, Repr

namespace PacketReceipt

/-- `SetDeliveryCallback` and `SetTimeoutCallback` with the channel's methods. -/
def watch (r : PacketReceipt) : PacketReceipt := { r with deliveryCallback := true, timeoutCallback := true }

def unwatch (r : PacketReceipt) : PacketReceipt := { r with deliveryCallback := false, timeoutCallback := false }

end PacketReceipt

/-- What becomes of a packet. `Outbound` also succeeds when no interface takes it; the receipt is then not marked. -/
inductive Transmission where
  | error
  | nothing
  | sent
deriving DecidableEq, Repr

structure OutletLink where
  status : LinkStatus
  attachedInterface : Bool
  mdu : Nat
deriving DecidableEq, Repr

/-- `LinkChannelOutlet.Send`: none is an error. A link with an attached interface makes no receipt. -/
def OutletLink.send (l : OutletLink) (t : Transmission) : Option (Option PacketReceipt) :=
  if l.status = .closed then none
  else
    match t with
    | .error => none
    | .nothing | .sent => if l.attachedInterface then some none else some (some {})

/-- Where the round trip time of the link lies: not measured, up to `ChannelRTTFast`, up to `ChannelRTTMedium`, above. -/
inductive Rtt where
  | zero
  | fast
  | medium
  | slow
deriving DecidableEq, Repr

/-- A `Send` under `sendLock`: before `outlet.Send`, and after it has failed or made a packet. -/
inductive Sending where
  | idle
  | reserved (env : Envelope Message Nat)
  | refused (env : Envelope Message Nat)
  | sent (env : Envelope Message Nat) (packet : Nat)
deriving DecidableEq, Repr

/-- The next part of a callback that runs: `packetTimeout`, then `expire`, `resend` and `rearm`, or a shutdown. -/
inductive Call where
  | packetDelivered (packet : Nat)
  | packetTimeout (packet : Nat)
  | expire (packet : Nat)
  | resend (packet : Nat)
  | rearm (packet : Nat)
  | shutdown
deriving DecidableEq, Repr

def Call.packet : Call → Option Nat
  | .packetDelivered n | .packetTimeout n | .expire n | .resend n | .rearm n => some n
  | .shutdown => none

/-- `maxTries` of `NewChannel`. -/
def channelMaxTries : Nat := 5

def channelFastRateRounds : Nat := 10

/-- The fields of a `Channel` that sending uses, the link, the receipts, and the calls in progress. The last four record
    the packets of the sends that returned, those that `packetDelivered` took out, the largest window, and a shutdown.
    -/
structure ChannelSender where
  link : OutletLink
  txRing : List (Envelope Message Nat) := []
  nextSequence : UInt16 := 0
  nextRXSequence : UInt16 := 0
  window : Nat
  windowMax : Nat
  windowMin : Nat
  windowFlexibility : Nat
  fastRateRounds : Nat := 0
  mediumRateRounds : Nat := 0
  packets : Nat := 0
  receipts : Nat → Option PacketReceipt := fun _ => none
  tries : Nat → Nat := fun _ => 0
  sending : Sending := .idle
  calls : List Call := []
  returned : List Nat := []
  collected : List Nat := []
  widest : Nat := window
  down : Bool := false

namespace ChannelSender

/-- `NewChannel` on a link, whose round trip time may be above `ChannelRTTSlow`. -/
def newChannel (link : OutletLink) (rttSlow : Bool) : ChannelSender :=
  if rttSlow then { link, window := 1, windowMax := 1, windowMin := 1, windowFlexibility := 1 }
  else { link, window := 4, windowMax := 5, windowMin := 2, windowFlexibility := 4 }

variable (c : ChannelSender)

def tracked : List Nat := c.txRing.filterMap (·.packet)

/-- The receipt of a packet has `Proved` set. -/
def proved (c : ChannelSender) (n : Nat) : Bool := (c.receipts n).any (·.proved)

def setReceipt (n : Nat) (r : PacketReceipt) : ChannelSender :=
  { c with receipts := Function.update c.receipts n (some r) }

def isReadyToSend : Bool :=
  c.link.status = .active && c.txRing.length < c.window

/-- The first locked part of `Send`: it reserves a sequence number, or the call returns an error. -/
def reserve (message : Message) : ChannelSender :=
  if c.isReadyToSend then
    match message.data with
    | none => c
    | some data =>
      if (Envelope.pack message.msgType c.nextSequence data).length > c.link.mdu then c
      else
        { c with
          nextSequence := c.nextSequence + 1
          sending := .reserved { sequence := c.nextSequence, message, packet := none } }
  else c

/-- `outlet.Send`. -/
def transmit (env : Envelope Message Nat) (t : Transmission) : ChannelSender :=
  match c.link.send t with
  | none => { c with sending := .refused env }
  | some receipt =>
    { c with
      receipts := Function.update c.receipts c.packets receipt
      packets := c.packets + 1
      sending := .sent env c.packets }

def rollBack (env : Envelope Message Nat) : ChannelSender :=
  { c with nextSequence := env.sequence, sending := .idle }

/-- The last locked part of `Send`. A packet without a receipt does not enter the ring. -/
def commit (env : Envelope Message Nat) (n : Nat) : ChannelSender :=
  let tries := Function.update c.tries n (c.tries n + 1)
  match c.receipts n with
  | none => { c with tries, sending := .idle, returned := n :: c.returned }
  | some receipt =>
    let receipts := Function.update c.receipts n (some receipt.markSent.watch)
    match Channel.emplaceEnvelope c.nextRXSequence { env with packet := some n } c.txRing with
    | none => { c with tries, receipts, nextSequence := env.sequence, sending := .idle }
    | some txRing => { c with tries, receipts, txRing, sending := .idle, returned := n :: c.returned }

/-- The part of `packetDelivered` that goes by the round trip time. -/
def adapt : Rtt → ChannelSender
  | .zero => c
  | .fast =>
    let fastRateRounds := c.fastRateRounds + 1
    if c.windowMax < 48 ∧ fastRateRounds ≥ channelFastRateRounds then
      { c with fastRateRounds, windowMax := 48, windowMin := 16 }
    else { c with fastRateRounds }
  | .medium =>
    let mediumRateRounds := c.mediumRateRounds + 1
    if c.windowMax < 12 ∧ mediumRateRounds ≥ channelFastRateRounds then
      { c with fastRateRounds := 0, mediumRateRounds, windowMax := 12, windowMin := 5 }
    else { c with fastRateRounds := 0, mediumRateRounds }
  | .slow => { c with fastRateRounds := 0, mediumRateRounds := 0 }

section
-- A packet is found in the ring by its hash.
variable (hash : Nat → Bytes)

variable (c : ChannelSender)

def lookup (n : Nat) : Option Nat := c.tracked.find? fun p => hash p = hash n

def packetDelivered (n : Nat) (rtt : Rtt) : ChannelSender :=
  match c.lookup hash n with
  | none => c
  | some p =>
    let window := if c.window < c.windowMax then c.window + 1 else c.window
    { c with
      txRing := c.txRing.eraseP fun env => env.packet.any fun p => hash p = hash n
      window
      widest := max c.widest window
      collected := p :: c.collected }.adapt rtt

/-- The first locked part of `packetTimeout`. -/
def expire (n : Nat) : ChannelSender × List Call :=
  match c.lookup hash n with
  | none => (c, [])
  | some p =>
    if c.tries p ≥ channelMaxTries then ({ c with down := true }, [.shutdown])
    else
      let narrow := c.window > c.windowMin
      ({ c with
          tries := Function.update c.tries p (c.tries p + 1)
          window := if narrow then c.window - 1 else c.window
          windowMax :=
            if narrow ∧ c.windowMax > c.windowMin + c.windowFlexibility then c.windowMax - 1 else c.windowMax },
        [.resend p])

/-- `outlet.Resend`, which is `Outbound` of the packet. After an error `packetTimeout` returns. -/
def resend (n : Nat) : Transmission → ChannelSender × List Call
  | .error => (c, [])
  | .nothing => (c, [.rearm n])
  | .sent =>
    match c.receipts n with
    | none => (c, [.rearm n])
    | some receipt => (c.setReceipt n receipt.markSent, [.rearm n])

/-- The second locked part of `packetTimeout`. -/
def rearm (n : Nat) : ChannelSender × List Call :=
  match c.receipts n with
  | none => (c, [])
  | some receipt => (c.setReceipt n receipt.watch, if receipt.proved then [.packetDelivered n] else [])

def shutdown : ChannelSender :=
  { c with
    receipts := fun n => if n ∈ c.tracked then (c.receipts n).map (·.unwatch) else c.receipts n
    txRing := []
    down := true }

def perform (rtt : Rtt) (t : Transmission) : Call → ChannelSender × List Call
  | .packetDelivered n => (c.packetDelivered hash n rtt, [])
  | .packetTimeout n => (c, if c.proved n then [] else [.expire n])
  | .expire n => c.expire hash n
  | .resend n => c.resend n t
  | .rearm n => c.rearm n
  | .shutdown => (c.shutdown, [])

/-- A valid proof arrives for the packet (`ValidateLinkProof`). -/
def prove (n : Nat) (receipt : PacketReceipt) : ChannelSender :=
  { c.setReceipt n { receipt with status := .delivered, proved := true } with
    calls := if receipt.deliveryCallback then .packetDelivered n :: c.calls else c.calls }

/-- `CheckTimeout` when the time is over, by the channel's sweep or the transport's, which also culls receipts. -/
def checkTimeout (n : Nat) (receipt : PacketReceipt) (culled : Bool) : ChannelSender :=
  if receipt.status = .sent then
    { c.setReceipt n { receipt with status := if culled then .culled else .failed } with
      calls := if receipt.timeoutCallback then .packetTimeout n :: c.calls else c.calls }
  else c

inductive Action where
  | send (message : Message)
  | outlet (t : Transmission)
  | commit
  | call (call : Call) (rtt : Rtt) (t : Transmission)
  | prove (packet : Nat)
  | checkTimeout (packet : Nat) (culled : Bool)
  | shutdown
  | link (link : OutletLink)
  | receive (nextRXSequence : UInt16)
deriving DecidableEq

/-- One step. The link and what the receiving half does to the channel are in the hands of others. -/
def step : Action → Option ChannelSender
  | .send message => if c.sending = .idle then some (c.reserve message) else none
  | .outlet t =>
    match c.sending with
    | .reserved env => some (c.transmit env t)
    | _ => none
  | .commit =>
    match c.sending with
    | .refused env => some (c.rollBack env)
    | .sent env n => some (c.commit env n)
    | _ => none
  | .call call rtt t =>
    if call ∈ c.calls then
      let r := c.perform hash rtt t call
      some { r.1 with calls := r.2 ++ c.calls.erase call }
    else none
  | .prove n => (c.receipts n).map (c.prove n)
  | .checkTimeout n culled => (c.receipts n).map (c.checkTimeout n · culled)
  | .shutdown => some c.shutdown
  | .link link => some { c with link }
  | .receive nextRXSequence => some { c with nextRXSequence }

end

/-- No `Send` and no callback is in progress. -/
def Quiet : Prop := c.sending = .idle ∧ c.calls = []

end ChannelSender

end Reticulum
