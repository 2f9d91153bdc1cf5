import Reticulum.Link
import Reticulum.Lxmf.Message
import Reticulum.Packet
import Reticulum.Transitions

/-! # The message router: what goes out (lxmf/router.go)

Each function runs as one step, since all of them hold the router's lock; the notices that `ProcessOutbound` gives after
it has released the lock belong to its step. A message is known by the number under which it was accepted. Progress
values and the bytes that are sent are left out; times are in nanoseconds. -/

namespace Reticulum.Lxmf

inductive MessageState where
  | generating
  | outbound
  | sending
  | sent
  | delivered
  | paper
  | rejected
  | cancelled
  | failed
deriving DecidableEq, Repr

inductive Representation where
  | unknown
  | packet
  | resource
deriving DecidableEq, Repr

structure OutboundMessage where
  messageID : Bytes
  destinationHash : Bytes
  state : MessageState := .generating
  method : Option Method := none
  desiredMethod : Option Method := none
  packedLength : Nat
  propagationPackedLength : Nat := 0
  representation : Representation := .unknown
  deliveryAttempts : Nat := 0
  nextDeliveryAttempt : Time := 0
  tryPropagationOnFail : Bool := false
  /-- The number of the link it is sent on. -/
  deliveryDestination : Option Nat := none
  deferStamp : Bool := false
  stamped : Bool := false
  deferPropagationStamp : Bool := false
  propagationStamped : Bool := false
deriving DecidableEq, Repr

/-- How a packet was sent: to the propagation node, on a direct link, or to the destination itself. -/
inductive ReceiptKind where
  | propagated
  | direct
  | raw
deriving DecidableEq, Repr

structure Receipt where
  message : Nat
  kind : ReceiptKind
deriving DecidableEq, Repr

structure OutboundResource where
  message : Nat
  /-- Whether it is for the propagation node. -/
  propagated : Bool
deriving DecidableEq, Repr

structure Transmission where
  message : Nat
  /-- Whether it goes to the propagation node. -/
  propagated : Bool
deriving DecidableEq, Repr

inductive Callback where
  | delivery
  | failed
deriving DecidableEq, Repr

structure OutboundRouter where
  now : Time
  messages : List OutboundMessage := []
  pendingOutbound : List Nat := []
  pendingDeferredStamps : List Nat := []
  /-- The message whose stamps are being made. -/
  stamping : Option Nat := none
  /-- Whether an outbound propagation node is set. -/
  propagationNode : Bool := false
  outboundPropagationLink : Option Nat := none
  outboundPropagationLinkMessage : Option Nat := none
  directLinks : Table Nat := ∅
  resourceLinks : List Bytes := []
  resourceLinkPending : List Bytes := []
  /-- A number that no link has. -/
  freshLink : Nat := 0
  /-- The receipts and resources that have not yet reported. -/
  receipts : List Receipt := []
  resources : List OutboundResource := []
  /-- The calls of the messages' callbacks. -/
  calls : List (Nat × Callback) := []
  /-- What has been sent so far. -/
  transmissions : List Transmission := []

/-- What the other packages answer for a message: the status of its link, asked twice, and whether calls succeed. -/
structure SendFacts where
  hasPath : Bool := true
  linkStatusBefore : LinkStatus := .active
  linkStatus : LinkStatus := .active
  nodeRecalled : Bool := true
  destinationMade : Bool := true
  linkMade : Bool := true
  establish : Bool := true
  /-- `packPropagated`: the length, unless it fails. -/
  packPropagated : Option Nat := none
  packetMade : Bool := true
  packetSent : Bool := true
  receipt : Bool := true
  resourceMade : Bool := true
  advertised : Bool := true
deriving DecidableEq, Repr

inductive SendFailure where
  | representationNotSupported
  | linkPending
  | other
deriving DecidableEq, Repr

/-- What becomes of a message: `FailedCallback` is called at once for `notified`, after the pass for `failed`. -/
inductive Fate where
  | kept
  | removed
  | notified
  | failed
deriving DecidableEq, Repr

def maxDeliveryAttempts : Nat := 5

def maxPathlessTries : Nat := 1

def deliveryRetryWait : Int := 10 * 1000000000

def pathRequestWait : Int := 7 * 1000000000

def linkPacketMaxContent : Nat := packetMDU - (2 * destinationLength + signatureLength + 8 + 8)

namespace OutboundMessage

/-- `failMessageLocked`, apart from the notice. -/
def fail (m : OutboundMessage) : OutboundMessage := if m.state ≠ .rejected then { m with state := .failed } else m

/-- The representation that `sendMessageLocked` chooses. -/
def selected (m : OutboundMessage) : Representation :=
  if m.method = some .propagated then
    if m.representation = .resource ∨ m.propagationPackedLength > packetMDU then .resource else .packet
  else
    let packetLength :=
      if m.method = some .opportunistic ∨ m.method = some .direct then m.packedLength - destinationLength
      else m.packedLength
    if packetLength > packetMDU then .resource else .packet

def retryAt (m : OutboundMessage) (time : Time) : OutboundMessage :=
  { m with state := .outbound, nextDeliveryAttempt := time }

end OutboundMessage

namespace OutboundRouter

variable (r : OutboundRouter)

def transmit (i : Nat) (propagated : Bool) : OutboundRouter :=
  { r with transmissions := r.transmissions ++ [⟨i, propagated⟩] }

section

variable (i : Nat) (m : OutboundMessage) (f : SendFacts)

def sendMessagePacket : OutboundRouter × OutboundMessage × Option SendFailure :=
  let m := { m with representation := .packet }
  if m.method = some .propagated ∧ m.deliveryDestination ≠ none then
    let r := { r with outboundPropagationLinkMessage := some i }
    let r := if f.packetMade then r.transmit i true else r
    if f.packetMade && f.packetSent then
      if f.receipt then ({ r with receipts := r.receipts ++ [⟨i, .propagated⟩] }, { m with state := .sending }, none)
      else (r, m, none)
    else (r, m, some .other)
  else if m.method = some .direct ∧ m.deliveryDestination ≠ none then
    let r := if f.packetMade then r.transmit i false else r
    if f.packetMade && f.packetSent then
      if f.receipt then ({ r with receipts := r.receipts ++ [⟨i, .direct⟩] }, { m with state := .sending }, none)
      else (r, m, none)
    else (r, m, some .other)
  else if (m.method = some .opportunistic ∨ m.method = some .direct) ∧ m.packedLength ≤ destinationLength then
    (r, m, some .other)
  else
    let r := r.transmit i false
    if f.packetSent then
      if f.receipt then ({ r with receipts := r.receipts ++ [⟨i, .raw⟩] }, m, none) else (r, m, none)
    else (r, m, some .other)

def sendMessageResource : OutboundRouter × OutboundMessage × Option SendFailure :=
  let m := { m with representation := .resource }
  if m.method = some .propagated ∧ m.deliveryDestination ≠ none then
    let r := { r with outboundPropagationLinkMessage := some i }
    if f.resourceMade then
      ({ r.transmit i true with resources := r.resources ++ [⟨i, true⟩] }, { m with state := .sending },
        if f.advertised then none else some .other)
    else (r, m, some .other)
  else if m.destinationHash ∈ r.resourceLinks then
    if f.resourceMade then
      ({ r.transmit i false with resources := r.resources ++ [⟨i, false⟩] }, m,
        if f.advertised then none else some .other)
    else (r, m, some .other)
  else if m.destinationHash ∈ r.resourceLinkPending then (r, m, some .linkPending)
  else if f.linkMade && f.establish then
    ({ r with resourceLinkPending := m.destinationHash :: r.resourceLinkPending }, m, some .linkPending)
  else (r, m, some .other)

/-- `packPropagated`, unless it has been done before; none if it fails. -/
def packPropagated (m : OutboundMessage) (f : SendFacts) : Option OutboundMessage :=
  if m.propagationPackedLength = 0 then
    f.packPropagated.map fun length =>
      { m with
        propagationPackedLength := length
        representation := if length ≤ linkPacketMaxContent then .packet else .resource }
  else some m

/-- `sendMessageLocked`. -/
def sendMessage : OutboundRouter × OutboundMessage × Option SendFailure :=
  match if m.method = some .propagated then packPropagated m f else some m with
  | none => (r, m, some .other)
  | some m => if m.selected = .resource then r.sendMessageResource i m f else r.sendMessagePacket i m f

def sendOrRetry (sent : OutboundMessage → OutboundMessage) : OutboundRouter × OutboundMessage × Fate :=
  match r.sendMessage i m f with
  | (r, m, none) => (r, sent m, .kept)
  | (r, m, some .representationNotSupported) => (r, m.fail, .failed)
  | (r, m, some .linkPending) => (r, m.retryAt (r.now + pathRequestWait), .kept)
  | (r, m, some .other) =>
    (r, { m with deliveryAttempts := m.deliveryAttempts + 1 }.retryAt (r.now + deliveryRetryWait), .kept)

def processPropagated : OutboundRouter × OutboundMessage × Fate :=
  if r.propagationNode = false ∨ m.deliveryAttempts > maxDeliveryAttempts then (r, m.fail, .failed)
  else
    match r.outboundPropagationLink with
    | some link =>
      match f.linkStatus with
      | .active =>
        if m.state = .sending then (r, m, .kept)
        else
          match r.sendMessage i { m with deliveryDestination := some link } f with
          | (r, m, some _) =>
            (r, { m with deliveryAttempts := m.deliveryAttempts + 1 }.retryAt (r.now + deliveryRetryWait), .kept)
          | (r, m, none) => (r, if m.state ≠ .sending then { m with state := .sent } else m, .kept)
      | .closed =>
        ({ r with outboundPropagationLink := none },
          { m with deliveryDestination := none, nextDeliveryAttempt := r.now + deliveryRetryWait }, .kept)
      | _ => (r, m, .kept)
    | none =>
      let m := { m with
        deliveryDestination := none
        deliveryAttempts := m.deliveryAttempts + 1
        nextDeliveryAttempt := r.now + deliveryRetryWait }
      if m.deliveryAttempts < maxDeliveryAttempts then
        if f.hasPath = false then (r, { m with nextDeliveryAttempt := r.now + pathRequestWait }, .kept)
        else if f.nodeRecalled = false then (r, m.fail, .failed)
        else if f.destinationMade && f.linkMade then
          ({ r with
            outboundPropagationLink := if f.establish then some r.freshLink else none
            freshLink := r.freshLink + 1 }, m, .kept)
        else (r, m, .kept)
      else (r, m, .kept)

def processOpportunistic : OutboundRouter × OutboundMessage × Fate :=
  if f.hasPath = false then
    let wait := if m.deliveryAttempts ≥ maxPathlessTries then pathRequestWait else deliveryRetryWait
    (r, { m with nextDeliveryAttempt := r.now + wait, deliveryAttempts := m.deliveryAttempts + 1 }, .kept)
  else if m.state = .sent ∧ m.deliveryAttempts = maxPathlessTries + 1 then
    (r, { m with deliveryAttempts := m.deliveryAttempts + 1, nextDeliveryAttempt := r.now + pathRequestWait }, .kept)
  else if m.nextDeliveryAttempt > 0 ∧ r.now < m.nextDeliveryAttempt then (r, m, .kept)
  else
    let m := { m with
      deliveryAttempts := m.deliveryAttempts + 1
      nextDeliveryAttempt := r.now + deliveryRetryWait }
    r.sendOrRetry i m f fun m => { m with state := .sent }

def processDirect : OutboundRouter × OutboundMessage × Fate :=
  if f.hasPath = false then
    (r, { m with
      deliveryAttempts := m.deliveryAttempts + 1
      nextDeliveryAttempt := r.now + pathRequestWait }, .kept)
  else
    match r.directLinks.lookup m.destinationHash with
    | some link =>
      match f.linkStatus with
      | .active =>
        if m.state = .sending then (r, m, .kept)
        else r.sendOrRetry i { m with deliveryDestination := some link, state := .sending } f id
      | .closed =>
        ({ r with directLinks := r.directLinks.erase m.destinationHash },
          { m with deliveryDestination := none, nextDeliveryAttempt := r.now + deliveryRetryWait }, .kept)
      | _ => (r, m, .kept)
    | none =>
      let m := { m with
        deliveryAttempts := m.deliveryAttempts + 1
        nextDeliveryAttempt := r.now + deliveryRetryWait }
      if m.deliveryAttempts < maxDeliveryAttempts ∧ f.linkMade = true then
        ({ r with
          directLinks :=
            if f.establish then r.directLinks.insert m.destinationHash r.freshLink
            else r.directLinks.erase m.destinationHash
          freshLink := r.freshLink + 1 }, m, .kept)
      else (r, m, .kept)

def attempt : OutboundRouter × OutboundMessage × Fate :=
  let sendMethod := (m.method.or m.desiredMethod).getD .direct
  let m := { m with method := some sendMethod }
  let activePropagationLink : Bool :=
    sendMethod = .propagated && r.outboundPropagationLink.isSome && f.linkStatusBefore = .active
  let activeDirectLink : Bool :=
    sendMethod = .direct && (r.directLinks.lookup m.destinationHash).isSome && f.linkStatusBefore = .active
  if m.nextDeliveryAttempt > 0 ∧ r.now < m.nextDeliveryAttempt ∧ activePropagationLink = false ∧
      activeDirectLink = false then
    (r, m, .kept)
  else if sendMethod ≠ .propagated ∧ m.deliveryAttempts ≥ maxDeliveryAttempts then
    if m.tryPropagationOnFail = true ∧ r.propagationNode = true then
      (r, { m with
        method := some .propagated
        deliveryAttempts := 0
        tryPropagationOnFail := false
        state := .outbound
        nextDeliveryAttempt := 0 }, .kept)
    else (r, m.fail, .failed)
  else
    match sendMethod with
    | .propagated => r.processPropagated i m f
    | .opportunistic => r.processOpportunistic i m f
    | .direct => r.processDirect i m f
    | .paper => r.sendOrRetry i m f fun m => { m with state := .sent }

/-- One round of the loop in `ProcessOutbound`. -/
def processMessage : OutboundRouter × OutboundMessage × Fate :=
  match m.state with
  | .sent => if m.method = some .propagated then (r, m, .removed) else r.attempt i m f
  | .delivered | .failed => (r, m, .removed)
  | .cancelled | .rejected =>
    ({ r with
      outboundPropagationLinkMessage :=
        if r.outboundPropagationLinkMessage = some i then none else r.outboundPropagationLinkMessage }, m, .notified)
  | _ => r.attempt i m f

end

/-- The loop of `ProcessOutbound`, with what becomes of each message. -/
def processAll (facts : Nat → SendFacts) : OutboundRouter → List Nat → OutboundRouter × List (Nat × Fate)
  | r, [] => (r, [])
  | r, i :: rest =>
    match r.messages[i]? with
    | none => processAll facts r rest
    | some m =>
      let (r, m, fate) := r.processMessage i m (facts i)
      let calls := if fate = .notified then r.calls ++ [(i, .failed)] else r.calls
      let (r, fates) := processAll facts { r with messages := r.messages.set i m, calls } rest
      (r, (i, fate) :: fates)

def fates (facts : Nat → SendFacts) : List (Nat × Fate) :=
  (processAll facts r r.pendingOutbound).2

/-- `ProcessOutbound`, after `ProcessDeferredStamps`. -/
def processOutbound (facts : Nat → SendFacts) : OutboundRouter :=
  let (r', fates) := processAll facts r r.pendingOutbound
  { r' with
    pendingOutbound := (fates.filter (·.2 = .kept)).map (·.1)
    calls := r'.calls ++ (fates.filter (·.2 = .failed)).map fun fate => (fate.1, .failed) }

/-- Whether there is a ticket, whether the cost is known, and whether packing and the check of the functions succeed. -/
structure HandleFacts where
  ticket : Bool := false
  stampCostKnown : Bool := false
  packed : Bool := true
  compression : Bool := true
deriving DecidableEq, Repr

/-- The message as `HandleOutbound` queues it. -/
def accepted (m : OutboundMessage) (f : HandleFacts) : OutboundMessage :=
  { m with
    state := .outbound
    method := some (m.desiredMethod.getD .direct)
    deferStamp := m.deferStamp && !f.ticket && f.stampCostKnown }

def defers (m : OutboundMessage) : Bool :=
  m.deferStamp || m.desiredMethod = some .propagated && m.deferPropagationStamp

def messageIDOf (i : Nat) : Option Bytes := (r.messages[i]?).map (·.messageID)

def deleteDeferred (messageID : Bytes) : List Nat :=
  r.pendingDeferredStamps.filter fun i => r.messageIDOf i ≠ some messageID

/-- `HandleOutbound`; none if it returns an error, with or without a call of the message's `FailedCallback`. -/
def handleOutbound (m : OutboundMessage) (f : HandleFacts) : Option OutboundRouter :=
  if m.desiredMethod = some .propagated ∧ r.propagationNode = false then none
  else if f.packed && f.compression then
    let i := r.messages.length
    let m := accepted m f
    let r' := { r with messages := r.messages ++ [m] }
    if defers m then some { r' with pendingDeferredStamps := r.deleteDeferred m.messageID ++ [i] }
    else some { r' with pendingOutbound := r.pendingOutbound ++ [i] }
  else none

def modifyMessage (i : Nat) (change : OutboundMessage → OutboundMessage) : OutboundRouter :=
  { r with messages := r.messages.modify i change }

def call (i : Nat) (callback : Callback) : OutboundRouter :=
  { r with calls := r.calls ++ [(i, callback)] }

def cancelFirst (messageID : Bytes) (cancelState : MessageState) (among : List Nat) :
    OutboundRouter :=
  match among.find? fun i => r.messageIDOf i = some messageID with
  | none => r
  | some i => r.modifyMessage i fun m => { m with state := cancelState }

/-- `CancelOutbound`, before it calls `ProcessOutbound`. -/
def cancelOutbound (messageID : Bytes) (cancelState : MessageState) : OutboundRouter :=
  (r.cancelFirst messageID cancelState r.pendingDeferredStamps).cancelFirst messageID cancelState r.pendingOutbound

/-- What the making of the stamps gives. A message gets its stamps once, so those made are not recorded. -/
structure StampFacts where
  stamp : Bool := true
  packed : Bool := true
  costKnown : Bool := true
  propagationStamp : Bool := true
  packedAgain : Bool := true
deriving DecidableEq, Repr

/-- The start of `ProcessDeferredStamps`. A message that is cancelled by then is dropped. -/
def startStamps : Option OutboundRouter :=
  match r.stamping, r.pendingDeferredStamps with
  | none, i :: rest =>
    match r.messages[i]? with
    | none => none
    | some m =>
      if m.state = .cancelled then some ({ r with pendingDeferredStamps := rest }.call i .failed)
      else some { r with stamping := some i }
  | _, _ => none

inductive StampResult where
  | made
  /-- Making a stamp has failed, perhaps because it was cancelled. -/
  | interrupted
  | failed
deriving DecidableEq, Repr

def stampResult (m : OutboundMessage) (f : StampFacts) : StampResult :=
  let first : StampResult :=
    if m.deferStamp = false ∨ m.stamped = true then .made
    else if f.stamp = false then .interrupted
    else if f.packed then .made
    else .failed
  if first ≠ .made then first
  else if m.desiredMethod ≠ some .propagated ∨ m.propagationStamped = true then .made
  else if f.costKnown = false then .failed
  else if f.propagationStamp = false then .interrupted
  else if f.packedAgain then .made
  else .failed

/-- The rest of `ProcessDeferredStamps`. -/
def finishStamps (f : StampFacts) : Option OutboundRouter :=
  match r.stamping with
  | none => none
  | some i =>
    match r.messages[i]? with
    | none => none
    | some m =>
      let r := { r with stamping := none, pendingDeferredStamps := r.deleteDeferred m.messageID }
      match stampResult m f with
      | .made => some { r with pendingOutbound := r.pendingOutbound ++ [i] }
      | .interrupted =>
        some ((if m.state = .cancelled then r else r.modifyMessage i OutboundMessage.fail).call i .failed)
      | .failed => some ((r.modifyMessage i OutboundMessage.fail).call i .failed)

def forgetLinkMessage (i : Nat) : OutboundRouter :=
  if r.outboundPropagationLinkMessage = some i then { r with outboundPropagationLinkMessage := none } else r

def receiptDelivered (receipt : Receipt) : OutboundRouter :=
  let r := { r with receipts := r.receipts.erase receipt }
  match receipt.kind with
  | .propagated =>
    ((r.modifyMessage receipt.message fun m => { m with state := .sent }).forgetLinkMessage receipt.message).call
      receipt.message .delivery
  | .direct | .raw =>
    (r.modifyMessage receipt.message fun m => { m with state := .delivered }).call receipt.message .delivery

def timedOut (kind : ReceiptKind) (retryAt : Time) (m : OutboundMessage) : OutboundMessage :=
  match kind with
  | .propagated => if m.state ≠ .cancelled ∧ m.state ≠ .sent then m.retryAt retryAt else m
  | .direct | .raw => if m.state ≠ .delivered ∧ m.state ≠ .cancelled then m.retryAt retryAt else m

def receiptTimedOut (receipt : Receipt) : OutboundRouter :=
  let r := { r with receipts := r.receipts.erase receipt }
  let r := r.modifyMessage receipt.message (timedOut receipt.kind (r.now + deliveryRetryWait))
  match receipt.kind with
  | .propagated => r.forgetLinkMessage receipt.message
  | .direct | .raw => r

def concluded (propagated complete : Bool) (retryAt : Time) (m : OutboundMessage) : OutboundMessage :=
  if propagated then if m.state ≠ .cancelled then m.retryAt retryAt else m
  else if complete then { m with state := .delivered }
  else if m.state ≠ .delivered ∧ m.state ≠ .cancelled then { m with state := .failed }
  else m

/-- The callback of a resource. Only one for the propagation node gives notice. -/
def resourceConcluded (resource : OutboundResource) (complete : Bool) : OutboundRouter :=
  let r := { r with resources := r.resources.erase resource }
  if resource.propagated && complete then
    ((r.modifyMessage resource.message fun m => { m with state := .sent }).forgetLinkMessage resource.message).call
      resource.message .delivery
  else
    let cancelled := (r.messages[resource.message]?).any (·.state = .cancelled)
    let r := r.modifyMessage resource.message
      (concluded resource.propagated complete (r.now + deliveryRetryWait))
    if resource.propagated && !cancelled then r.forgetLinkMessage resource.message else r

/-- `handleOutboundPropagationLinkClosed`. -/
def propagationLinkClosed (link : Nat) : OutboundRouter :=
  if r.outboundPropagationLink = some link then
    let messages := r.pendingOutbound.foldl (fun messages i => messages.modify i fun m =>
      if m.method = some .propagated ∧ m.state = .sending then
        { m.retryAt (r.now + deliveryRetryWait) with deliveryDestination := none }
      else m) r.messages
    { r with messages, outboundPropagationLink := none, outboundPropagationLinkMessage := none }
  else r

def directLinkClosed (destinationHash : Bytes) (link : Nat) : OutboundRouter :=
  if r.directLinks.lookup destinationHash = some link then
    { r with directLinks := r.directLinks.erase destinationHash }
  else r

def announced (concerns : OutboundMessage → Bool) : OutboundRouter :=
  { r with messages := r.pendingOutbound.foldl (fun messages i => messages.modify i fun m =>
      if concerns m then { m with nextDeliveryAttempt := r.now } else m) r.messages }

inductive Action where
  | handleOutbound (m : OutboundMessage) (f : HandleFacts)
  | processOutbound (facts : Nat → SendFacts)
  | cancelOutbound (messageID : Bytes) (cancelState : MessageState)
  | startStamps
  | finishStamps (f : StampFacts)
  | delivered (receipt : Receipt)
  | timedOut (receipt : Receipt)
  | concluded (resource : OutboundResource) (complete : Bool)
  | propagationLinkClosed (link : Nat)
  | directLinkClosed (destinationHash : Bytes) (link : Nat)
  | resourceLinkEstablished (destinationHash : Bytes)
  | resourceLinkClosed (destinationHash : Bytes)
  | deliveryAnnounced (destinationHash : Bytes)
  | propagationAnnounced
  | setPropagationNode (set : Bool)
  | tick (now : Time)

def step : Action → Option OutboundRouter
  | .handleOutbound m f => r.handleOutbound m f
  | .processOutbound facts => some (r.processOutbound facts)
  | .cancelOutbound messageID cancelState => some (r.cancelOutbound messageID cancelState)
  | .startStamps => r.startStamps
  | .finishStamps f => r.finishStamps f
  -- A receipt reports once, and so does a resource.
  | .delivered receipt => if receipt ∈ r.receipts then some (r.receiptDelivered receipt) else none
  | .timedOut receipt => if receipt ∈ r.receipts then some (r.receiptTimedOut receipt) else none
  | .concluded resource complete =>
    if resource ∈ r.resources then some (r.resourceConcluded resource complete) else none
  | .propagationLinkClosed link => some (r.propagationLinkClosed link)
  | .directLinkClosed destinationHash link => some (r.directLinkClosed destinationHash link)
  | .resourceLinkEstablished destinationHash =>
    some { r with
      resourceLinkPending := r.resourceLinkPending.filter (· ≠ destinationHash)
      resourceLinks := destinationHash :: r.resourceLinks }
  | .resourceLinkClosed destinationHash =>
    some { r with resourceLinks := r.resourceLinks.filter (· ≠ destinationHash) }
  | .deliveryAnnounced destinationHash =>
    some (r.announced fun m => m.destinationHash = destinationHash &&
      (m.method = some .direct || m.method = some .opportunistic))
  | .propagationAnnounced => some (r.announced fun m => m.method = some .propagated)
  | .setPropagationNode set => some { r with propagationNode := set }
  | .tick now => some { r with now }

end OutboundRouter
end Reticulum.Lxmf
