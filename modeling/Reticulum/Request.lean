import Reticulum.Receipts
import Reticulum.Threads

/-! Receipts of requests over a link (rns/request.go, and the parts of rns/link.go that conclude them). Each section
under the lock of the receipt is one step, and so is a failed callback that is called after the lock has been released.
-/

namespace Reticulum

inductive RequestStatus where
  | failed
  | sent
  | delivered
  | receiving
  | ready
deriving DecidableEq, Repr

def RequestStatus.Terminal (status : RequestStatus) : Prop := status = .failed ∨ status = .ready

instance (status : RequestStatus) : Decidable status.Terminal := inferInstanceAs (Decidable (_ ∨ _))

/-- A receipt, and how often its callbacks were started. Of the link there is only whether the receipt is pending. -/
structure RequestReceipt (ρ : Type) where
  status : RequestStatus := .sent
  response : Option ρ := none
  metadata : Option ρ := none
  packetReceipt : Option PacketReceipt := none
  responseResource : Option Nat := none
  /-- Zero for no limit. -/
  maxResponseSize : Int := 0
  responseSize : Option Int := none
  responseTransferSize : Option Int := none
  callback : Bool := true
  failedCallback : Bool := true
  pending : Bool := true
  succeeded : Nat := 0
  failed : Nat := 0
deriving DecidableEq, Repr

/-- What `handleResponse` is called with. -/
structure ResponseArrival (ρ : Type) where
  response : ρ
  metadata : Option ρ
  responseSize : Int
  responseTransferSize : Int
  checkSize : Bool
  updateSizes : Bool
deriving DecidableEq, Repr

namespace RequestReceipt

variable {ρ : Type} (rr : RequestReceipt ρ)

def recordResponseSize (responseSize responseTransferSize : Int) : RequestReceipt ρ :=
  { rr with
    responseSize := some responseSize
    responseTransferSize := some (rr.responseTransferSize.getD 0 + responseTransferSize) }

def recordResponseResourceSize (readSize readTransferSize : Int) : RequestReceipt ρ :=
  { rr with
    responseSize := some (rr.responseSize.getD readSize)
    responseTransferSize := some (rr.responseTransferSize.getD 0 + readTransferSize) }

def startCallback : RequestReceipt ρ :=
  if rr.callback then { rr with succeeded := rr.succeeded + 1 } else rr

def startFailedCallback : RequestReceipt ρ :=
  if rr.failedCallback then { rr with failed := rr.failed + 1 } else rr

def removePending : RequestReceipt ρ := { rr with pending := false }

def setStatus (status : RequestStatus) : RequestReceipt ρ := { rr with status }

def responseReceived (response : ρ) (metadata : Option ρ) : RequestReceipt ρ :=
  if rr.status = .ready ∨ rr.status = .failed then rr
  else startCallback { rr with response := some response, metadata, status := .ready }

/-- `requestResourceConcluded`, without the job that it starts. -/
def requestResourceConcluded (complete : Bool) : RequestReceipt ρ :=
  if complete then rr.setStatus .delivered
  else (rr.setStatus .failed).removePending.startFailedCallback

def noteDelivered (receipt : PacketReceipt) : PacketReceipt :=
  if receipt.status ≠ .delivered then { receipt with status := .delivered, proved := true } else receipt

def responseResourceProgress (resource : Option Nat) : RequestReceipt ρ :=
  if resource = none ∨ rr.status = .failed ∨ rr.status = .ready then rr
  else
    { rr with
      status := .receiving
      responseResource := resource
      packetReceipt := rr.packetReceipt.map noteDelivered }

def sizeOK (arrival : ResponseArrival ρ) : Bool :=
  !arrival.checkSize || rr.maxResponseSize = 0 || arrival.responseSize ≤ rr.maxResponseSize

inductive Point (ρ : Type) where
  /-- The end of `Request`, after an inline request has been sent. -/
  | dispatched
  /-- `handleResponse` under the lock of the link. -/
  | handleResponse (arrival : ResponseArrival ρ)
  | matched (arrival : ResponseArrival ρ)
  | responseReceived (response : ρ) (metadata : Option ρ)
  | responseRejected
  | requestTimedOut
  /-- What follows a failure, after the lock has been released. -/
  | callFailed
  | requestResourceConcluded
  | responseTimeoutJob
  | recordResponseResourceSize (readSize readTransferSize : Int)
  | responseResourceProgress (resource : Option Nat)
deriving DecidableEq, Repr

/-- The section of `ResponseRejected` and of `requestTimedOut`. -/
def fail : RequestReceipt ρ × List (Point ρ) :=
  if rr.status = .ready ∨ rr.status = .failed then (rr, []) else (rr.setStatus .failed, [.callFailed])

/-- One section. The input: the link is active and the response for this receipt; complete; past the deadline. -/
def exec : Point ρ → Bool → Option (RequestReceipt ρ × List (Point ρ))
  | .dispatched, _ =>
    some (if rr.status = .sent then (rr.setStatus .delivered, [.responseTimeoutJob]) else (rr, []))
  | .handleResponse arrival, input =>
    some (if input && rr.pending then (rr.removePending, [.matched arrival]) else (rr, []))
  | .matched arrival, _ =>
    some (if arrival.updateSizes then rr.recordResponseSize arrival.responseSize arrival.responseTransferSize else rr,
      [if rr.sizeOK arrival then .responseReceived arrival.response arrival.metadata else .responseRejected])
  | .responseReceived response metadata, _ => some (rr.responseReceived response metadata, [])
  | .responseRejected, _ | .requestTimedOut, _ => some rr.fail
  | .callFailed, _ => some (rr.removePending.startFailedCallback, [])
  | .requestResourceConcluded, complete =>
    some (rr.requestResourceConcluded complete, if complete then [.responseTimeoutJob] else [])
  | .responseTimeoutJob, expired =>
    some (rr, if rr.status ≠ .delivered then [] else [if expired then .requestTimedOut else .responseTimeoutJob])
  | .recordResponseResourceSize readSize readTransferSize, _ =>
    some (rr.recordResponseResourceSize readSize readTransferSize, [])
  | .responseResourceProgress resource, _ => some (rr.responseResourceProgress resource, [])

def Point.entry : Point ρ → Bool
  | dispatched | handleResponse _ | responseReceived _ _ | responseRejected | requestTimedOut | requestResourceConcluded
  | responseTimeoutJob | recordResponseResourceSize _ _ | responseResourceProgress _ => true
  | matched _ | callFailed => false

def system : Threads.System (RequestReceipt ρ) (Point ρ) Bool where
  entry := Point.entry
  exec rr := rr.exec

end RequestReceipt
end Reticulum
