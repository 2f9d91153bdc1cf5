import Reticulum.Transport.Basic

/-! What a transport node and its links write to interfaces (rns/transport.go, `Link.send` in rns/link.go). Sending is
the caller's business: `Send` of an interface takes the bytes as they are to be transmitted. -/

namespace Reticulum

/-- The places that hand bytes to `Send`. -/
inductive EgressSite where
  | outboundAttached
  | outboundPath
  | outboundBroadcast
  /-- `dispatchForwardSend`. -/
  | dispatch
  | pathResponse
  /-- `sendRebroadcast`. -/
  | rebroadcast
  | pathTable
  | linkTable
  | clientBroadcast
  | linkProof
  | clientProof
  | reverseProof
  /-- `Link.send` on an attached interface. -/
  | linkAttached
deriving DecidableEq, Repr

/-- A call of `Send`: the frame of the packet and the bytes that the interface is given for it. -/
structure Write where
  site : EgressSite
  iface : Interface
  frame : Bytes
  bytes : Bytes

def Write.direct (site : EgressSite) (iface : Interface) (frame : Bytes) : Write := ⟨site, iface, frame, frame⟩

/-- The frame through `ApplyIFACOutbound`, which may fail. -/
def Write.throughIfac (site : EgressSite) (iface : Interface) (frame : Bytes) : List Write :=
  (applyIfacOutbound iface.ifac frame).toList.map fun bytes => ⟨site, iface, frame, bytes⟩

inductive AnnounceDecision where
  | block
  | direct
  | capped
deriving DecidableEq, Repr

def shouldTransmitAnnounce (outIface : Interface) (fromIface : Option Interface) (localDestination : Bool)
    (receivedHops : Nat) : AnnounceDecision :=
  if !localDestination && fromIface.isNone then .block
  else if !localDestination && !outIface.announcesFromInternal && fromIface.any (·.mode = .internal) then .block
  else
    match outIface.mode with
    | .accessPoint => .block
    | .internal =>
      if localDestination then if 0 < receivedHops then .capped else .direct
      else
        match fromIface with
        | none => .block
        | some fromIface =>
          if fromIface.announcesToInternal = some true then .direct
          else if fromIface.mode = .boundary then .block
          else .direct
    | .roaming =>
      if localDestination then .direct
      else
        match fromIface with
        | none => .block
        | some fromIface => if fromIface.mode = .roaming ∨ fromIface.mode = .boundary then .block else .direct
    | .boundary =>
      if localDestination then .direct
      else
        match fromIface with
        | none => .block
        | some fromIface => if fromIface.mode = .roaming then .block else .direct
    | .full | .pointToPoint | .gateway => if 0 < receivedHops then .capped else .direct

namespace TransportSystem

variable (ts : TransportSystem)

/-! ### Packets of this node -/

def outboundAttached (p : Packet) (iface : Interface) : List Write :=
  if !iface.isOut then []
  else
    let raw := ts.disguiseBroadcastRaw p iface
    match applyIfacOutbound iface.ifac raw with
    | none => [.direct .outboundAttached iface raw]
    | some bytes => [⟨.outboundAttached, iface, raw, bytes⟩]

def outboundPath (p : Packet) (entry : PathEntry) (iface : Interface) : List Write :=
  if p.headerType = .header2 then []
  else
    let insert := entry.nextHop.length = truncatedHashLength ∧
      (1 < entry.hops ∨ entry.hops = 1 ∧ ts.connectedToSharedInstance = true)
    let raw :=
      if insert then p.insertHeader (ts.insertHopByte p iface) entry.nextHop (p.raw.drop 2)
      else if ts.shouldApplyDelta p iface then ts.mangleHops p.raw ts.localHopsDelta false
      else p.raw
    Write.throughIfac .outboundPath iface raw

/-- The broadcast fallback of `Outbound`; the function says where the cap lets an announce through at once. -/
def outboundBroadcast (p : Packet) (uncapped : Interface → Bool) : List Write :=
  let fromIface := (ts.pathTable.lookup p.destinationHash).bind (·.interface)
  let localDestination := decide (p.destinationHash ∈ ts.destinations)
  ts.interfaces.flatMap fun iface =>
    if !iface.isOut then []
    else
      let decision :=
        if p.packetType = .announce then shouldTransmitAnnounce iface fromIface localDestination p.hops else .direct
      if decision = .block ∨ decision = .capped ∧ uncapped iface = false then []
      else Write.throughIfac .outboundBroadcast iface (ts.disguiseBroadcastRaw p iface)

variable (iface : Interface) (p : Packet)

/-- `Outbound` of a packet that has been packed. -/
def outbound (attached : Option Interface) (uncapped : Interface → Bool) : List Write :=
  if pathfinderM - 1 < p.hops then []
  -- a destination of this node
  else if p.destinationHash ∈ ts.destinations ∧ p.packetType ≠ .announce ∧
      (p.destinationType = .single ∨ p.destinationType = .link) then []
  else
    let linkInterface :=
      if p.destinationType = .link then (ts.links.lookup p.destinationHash).bind (·.attachedInterface) else none
    match attached.or linkInterface with
    | some iface => ts.outboundAttached p iface
    | none =>
      match ts.pathTable.lookup p.destinationHash with
      | some ⟨nextHop, hops, some iface⟩ =>
        if p.packetType ≠ .announce ∧ p.destinationType ≠ .plain ∧ p.destinationType ≠ .group then
          ts.outboundPath p ⟨nextHop, hops, some iface⟩ iface
        else ts.outboundBroadcast p uncapped
      | _ => ts.outboundBroadcast p uncapped

/-- `Link.send` of a packet that has been packed. -/
def linkSend (link : LocalLink) (p : Packet) (uncapped : Interface → Bool) : List Write :=
  if link.closed then []
  else
    match link.attachedInterface with
    | some iface => [.direct .linkAttached iface p.raw]
    | none => ts.outbound p none uncapped

/-! ### Packets of others -/

/-- A packet without a transport id for a client of this node gets the id of this node. -/
def reinsertTransportID : Packet :=
  if p.transportID = none ∧ ts.isForLocalClient p = true ∧ ts.identity.isSome = true then
    { p with transportID := ts.identity }
  else p

/-- Forwarding by the path table; a link request is noted in the link table, others in the reverse table. -/
def forwardByPath (entry : PathEntry) (outIface : Interface) :
    TransportSystem × List Write :=
  let newRaw := ts.mangleForwardedRaw (ts.forwardedRaw p entry) iface.isLocalClient
    (ts.isForLocalClient p || ts.proofForLocalClient p)
  let ts' :=
    if p.packetType = .linkRequest then
      { ts with
        linkTable := ts.linkTable.insert (linkIDFromLR p)
          { nextHop := entry.nextHop
            outboundInterface := outIface
            remainingHops := entry.hops
            receivedInterface := iface
            hops := p.hops
            destinationHash := p.destinationHash } }
    else
      { ts with
        reverseTable := ts.reverseTable.insert p.getTruncatedHash
          { receivedInterface := iface, outboundInterface := outIface } }
  (ts', [.direct .pathTable outIface newRaw])

def linkOutbound (entry : LinkEntry) (p : Packet) (iface : Interface) : Option Interface :=
  if entry.outboundInterface.id = entry.receivedInterface.id then
    if (p.hops : Int) = entry.remainingHops ∨ (p.hops : Int) = entry.hops then some entry.outboundInterface else none
  else if iface.id = entry.outboundInterface.id then
    if (p.hops : Int) = entry.remainingHops then some entry.receivedInterface else none
  else if iface.id = entry.receivedInterface.id then
    if (p.hops : Int) = entry.hops then some entry.outboundInterface else none
  else none

/-- Forwarding by the link table; none where the packet is not one of a link that is known. -/
def forwardByLink : Option (List Write) :=
  if p.packetType = .announce ∨ p.packetType = .linkRequest ∨ p.context = contextLrproof then none
  else
    match ts.linkTable.lookup p.destinationHash with
    | none => none
    | some entry =>
      if !entry.validated then some []
      else
        (linkOutbound entry p iface).map fun outIface =>
          [.direct .linkTable outIface
            (p.raw.set 1 (ts.forwardedHopByte p iface.isLocalClient (instanceLocalLink entry)))]

def transportHandling : Option (TransportSystem × List Write) :=
  let path :=
    if p.transportID.isSome = true ∧ p.transportID = ts.identity then ts.pathTable.lookup p.destinationHash else none
  match path with
  | some entry =>
    match entry.interface with
    | none => some (ts, [])
    | some outIface => some (ts.forwardByPath iface p entry outIface)
  | none => (ts.forwardByLink iface p).map fun writes => (ts, writes)

def broadcastFromClient : List Write :=
  if iface.isLocalClient = true ∧ p.transportID = none ∧ p.packetType ≠ .announce ∧ p.packetType ≠ .proof then
    (ts.interfaces.filter (·.id ≠ iface.id)).map fun outIface => .direct .clientBroadcast outIface p.raw
  else []

/-- `relayLinkProof`, given whether the signature of the proof is valid; none where the link is not transported here. -/
def relayLinkProof (valid : Bool) : Option (TransportSystem × List Write) :=
  (ts.linkTable.lookup p.destinationHash).map fun entry =>
    if iface.id ≠ entry.outboundInterface.id then (ts, [])
    else
      let rebalance := (p.hops : Int) != entry.remainingHops && ts.allowLinkPathRebalance && !entry.validated
      if !valid || ((p.hops : Int) != entry.remainingHops && !rebalance) then (ts, [])
      else
        let pathTable :=
          if rebalance then
            match ts.pathTable.lookup entry.destinationHash with
            | none => ts.pathTable
            | some path => ts.pathTable.insert entry.destinationHash { path with hops := p.hops }
          else ts.pathTable
        let newRaw := p.raw.set 1 (ts.forwardedHopByte p iface.isLocalClient (instanceLocalLink entry))
        ({ ts with
            pathTable
            linkTable := ts.linkTable.insert p.destinationHash { entry with remainingHops := p.hops, validated := true } },
          [.direct .linkProof entry.receivedInterface newRaw])

/-- A proof that is not one of a link request, except for the receipts of this node. -/
def forwardProof : List Write :=
  match ts.interfaces.find? fun out => out.isLocalClient && out.hash = some p.destinationHash with
  | some client => [.direct .clientProof client p.withHops]
  | none =>
    match ts.reverseTable.lookup p.destinationHash with
    | none => []
    | some entry =>
      [.direct .reverseProof entry.receivedInterface
        (p.raw.set 1 (ts.forwardedHopByte p iface.isLocalClient entry.receivedInterface.isLocalClient))]

def dispatchForwardSend (raw : Bytes) : List Write := Write.throughIfac .dispatch iface raw

def sendRebroadcast (raw : Bytes) : List Write :=
  if raw = [] then [] else [.direct .rebroadcast iface (ts.reframeAnnounceForTransport raw)]

def forwardAnnounceToLocalClients (receivedOn : Interface) : List Write :=
  match ts.identity with
  | none => []
  | some hash =>
    (ts.spawnedClients.filter (·.id ≠ receivedOn.id)).flatMap fun client =>
      dispatchForwardSend client
        (p.insertHeader (UInt8.ofNat p.hops) hash (p.destinationHash ++ p.context :: p.data))

def forwardPathResponseToRequesters (source : Interface) : List Write :=
  (((ts.pendingPathRequests.lookup p.destinationHash).getD []).filter fun requester =>
    requester.id ≠ source.id && requester.status).flatMap fun requester =>
      dispatchForwardSend requester (ts.reframeAnnounceForTransport p.withHops)

/-- An announce, given whether it is taken into the path table. The rebroadcasts come later. -/
def forwardAnnounce (installed : Bool) : List Write :=
  (if installed then ts.forwardAnnounceToLocalClients p iface else []) ++
    if p.context = contextPathResponse then ts.forwardPathResponseToRequesters p iface else []

structure InboundChoice where
  /-- The signature of a link proof is valid. -/
  proofValid : Bool := false
  /-- An announce is taken into the path table. -/
  installed : Bool := false

def localHandling (choice : InboundChoice) : TransportSystem × List Write :=
  match p.packetType with
  | .announce => (ts, ts.forwardAnnounce iface p choice.installed)
  | .proof =>
    if p.context = contextLrproof then (ts.relayLinkProof iface p choice.proofValid).getD (ts, [])
    else (ts, ts.forwardProof iface p)
  | _ => (ts, ts.broadcastFromClient iface p)

/-- `processInboundPacket`; path requests, and packets for this node itself, are handled elsewhere. -/
def processInboundPacket (choice : InboundChoice) : TransportSystem × List Write :=
  let atLink := (ts.links.lookup p.destinationHash).isSome ∧
    (p.packetType ≠ .proof ∨ p.context = contextLrproof ∨ p.context = contextResourcePrf)
  if ts.isPathRequestPacket p = true ∨ p.destinationHash ∈ ts.destinations ∨ atLink then (ts, [])
  else if p.packetType ≠ .announce ∧ (ts.enabled = true ∨ iface.isLocalClient = true ∨
      ts.isForLocalClient p = true ∨ ts.isForLocalClientLink p = true) then
    let p := ts.reinsertTransportID p
    (ts.transportHandling iface p).getD (ts.localHandling iface p choice)
  else ts.localHandling iface p choice

/-! ### Events -/

/-- What makes a node write to its interfaces, with the packet that it is about as it was received or packed. -/
inductive Event where
  | outbound (p : Packet) (attached : Option Interface) (uncapped : Interface → Bool)
  | linkSend (p : Packet) (link : LocalLink) (uncapped : Interface → Bool)
  | inbound (p : Packet) (iface : Interface) (choice : InboundChoice)
  /-- A queued or tabled announce is due; it is one of this node if it came from nowhere. -/
  | rebroadcast (p : Packet) (source : Option Interface) (iface : Interface)
  /-- A path request is relayed. -/
  | relayPathRequest (p : Packet) (iface : Interface)
  /-- A path request is answered on the interface where it came from. -/
  | answerPathRequest (p : Packet) (iface : Interface)

def Event.packet : Event → Packet
  | outbound p _ _ | linkSend p _ _ | inbound p _ _ | rebroadcast p _ _ | relayPathRequest p _
  | answerPathRequest p _ => p

def Event.arrived : Event → Packet
  | inbound p iface _ => p.arrive iface
  | rebroadcast p source _ => source.elim p p.arrive
  | outbound p _ _ | linkSend p _ _ | relayPathRequest p _ | answerPathRequest p _ => p

def writes : Event → List Write
  | .outbound p attached uncapped => ts.outbound p attached uncapped
  | .linkSend p link uncapped => ts.linkSend link p uncapped
  | .inbound p iface choice => (ts.processInboundPacket iface (p.arrive iface) choice).2
  | .rebroadcast p source iface => ts.sendRebroadcast iface (source.elim p p.arrive).withHops
  | .relayPathRequest p iface => dispatchForwardSend iface p.raw
  | .answerPathRequest p iface => Write.throughIfac .pathResponse iface p.raw

end TransportSystem
end Reticulum
