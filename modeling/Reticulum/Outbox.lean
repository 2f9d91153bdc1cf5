import Reticulum.ChannelSend

/-! A channel as its users see it (rns/channel.go): `Send` accepts a message or returns an error, and what it accepted
is handed over at the other end. What a user cannot see of a call (the window, the link, the outlet) is a verdict. -/

namespace Reticulum

inductive SendError where
  | notReady
  | pack
  | tooBig
  | outlet
deriving DecidableEq, Repr

/-- What a `Send` meets: the channel is not ready, the outlet does not transmit, or nothing is in its way. -/
inductive Verdict where
  | notReady
  | refused
  | taken
deriving DecidableEq, Repr

/-- The payloads that were accepted, in order, and the verdicts on the calls to come. -/
structure Outbox where
  mdu : Nat
  nextSequence : UInt16 := 0
  sent : List Bytes := []
  verdicts : List Verdict := []
deriving DecidableEq, Repr

namespace Outbox

/-- `Send`. When no verdict is left the channel is never ready again. -/
def send (o : Outbox) (message : Message) : Outbox × Option SendError :=
  match o.verdicts with
  | [] => (o, some .notReady)
  | .notReady :: verdicts => ({ o with verdicts }, some .notReady)
  | verdict :: verdicts =>
    match message.data with
    | none => ({ o with verdicts }, some .pack)
    | some data =>
      let raw := Envelope.pack message.msgType o.nextSequence data
      if raw.length > o.mdu then ({ o with verdicts }, some .tooBig)
      else if verdict = .refused then ({ o with verdicts }, some .outlet)
      else ({ o with nextSequence := o.nextSequence + 1, sent := o.sent ++ [raw], verdicts }, none)

end Outbox

def received {M : Type} (factories : UInt16 → Option (MessageFactory M)) (payloads : List Bytes) : List M :=
  payloads.filterMap fun raw => (Envelope.unpack factories raw (none : Option Unit)).map (·.message)

end Reticulum
