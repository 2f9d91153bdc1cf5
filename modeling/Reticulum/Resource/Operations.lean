import Reticulum.Resource.Basic

/-! What a resource does with the packets and the timeouts of its transfer (rns/resource.go). Each operation runs under
the lock of the resource. Whether a packet could be sent is not up to the resource. -/

namespace Reticulum

inductive ResourceContext where
  | resource
  | resourceAdv
  | resourceReq
  | resourceHmu
  | resourcePrf
  | resourceIcl
  | resourceRcl
deriving DecidableEq, Repr

/-- Packets that were sent, goroutines that were started, and calls to the link and its transport. -/
inductive ResourceEffect where
  | send (context : ResourceContext) (data : Bytes)
  | callback
  | progress
  | requestNext
  | assemble
  | cancelOutgoing
  | cancelIncoming
  | teardown
  | cacheRequest (proof : Bytes)
deriving DecidableEq, Repr

inductive ResourceError where
  | transferFailed
  | noKnownMapHash
  | send
  | hmuTooShort
  | hmuUnpack (e : Msgpack.Error)
  | hmuMalformed
  | hmuMalformedSegment
  | hmuMalformedHashmap
  | hmuEmpty
  | requestInvalid
  | requestTooShort
  | requestHashMismatch
  | sequencing
  | hmuEmptySegment
deriving DecidableEq, Repr

structure Outcome where
  resource : Resource
  effects : List ResourceEffect := []
  error : Option ResourceError := none

namespace Resource

variable (r : Resource)

def cancelLocked : Resource :=
  if r.status.code < ResourceStatus.complete.code then { r with status := .failed } else r

/-- `Reject` of the advertisement that a packet holds. -/
def reject (packet : Bytes) (sent : Bool) : List ResourceEffect :=
  match ResourceAdvertisement.unpack packet with
  | some adv => if sent then [.send .resourceRcl adv.h] else []
  | none => []

def cancelCorruptLocked (sent : Bool) : List ResourceEffect :=
  .cancelIncoming :: (r.advertisementPacket.elim [] fun packet => reject packet sent) ++ [.teardown]

def cancel (linkActive sent : Bool) : Outcome :=
  if r.status = .corrupt then { resource := r, effects := r.cancelCorruptLocked sent }
  else if ResourceStatus.complete.code ≤ r.status.code then { resource := r }
  else
    { resource := { r with status := .failed }
      effects :=
        (if linkActive ∧ sent then [.send (if r.initiator then .resourceIcl else .resourceRcl) r.hash] else []) ++
          [if r.initiator then .cancelOutgoing else .cancelIncoming] ++ if r.callback then [.callback] else [] }

/-! ### The receiver -/

def receivedAt (i : Nat) : Option Bytes := r.parts[i]?.bind (·.receivedData)

/-- The loop of `requestNextLockedAt` over the positions of one window: the map hashes to ask for, and whether it met a
    part whose map hash is not known. The bound on the number of parts never ends the loop. -/
def scanWindow (r : Resource) : List Nat → List Bytes × Bool
  | [] => ([], false)
  | i :: rest =>
    if (r.receivedAt i).isSome then r.scanWindow rest
    else
      match (r.hashmap[i]?.join).filter (·.length = resourceMapHashLen) with
      | some mapHash =>
        let scanned := r.scanWindow rest
        (mapHash :: scanned.1, scanned.2)
      | none => ([], true)

def requestWindow : List Nat :=
  let start := (r.consecutiveCompletedHeight + 1).toNat
  List.range' start (min (start + r.window) r.parts.length - start)

def lastMapHash : Option Bytes :=
  if r.hashmapHeight < 1 then none
  else (r.hashmap[r.hashmapHeight - 1]?.join).filter (·.length = resourceMapHashLen)

/-- The end of `requestNextLockedAt`: the request for the given map hashes, which also asks for the next segment of the
    hashmap if the known part of it is exhausted. -/
def sendRequest (requested : List Bytes) (exhausted sent : Bool) : Outcome :=
  if exhausted then
    match r.lastMapHash with
    | none => { resource := r, error := some .noKnownMapHash }
    | some last =>
      if sent then
        { resource := { r with waitingForHmu := true }
          effects := [.send .resourceReq (0xff :: last ++ r.hash ++ requested.flatten)] }
      else { resource := r, error := some .send }
  else if requested.isEmpty then { resource := r }
  else if sent then { resource := r, effects := [.send .resourceReq (0x00 :: r.hash ++ requested.flatten)] }
  else { resource := r, error := some .send }

/-- `requestNextLockedAt`. -/
def requestNext (sent : Bool) : Outcome :=
  if r.status = .failed then { resource := r, error := some .transferFailed }
  else if r.initiator ∨ r.totalParts ≤ r.receivedCount ∨ r.waitingForHmu then { resource := r }
  else
    let scanned := r.scanWindow r.requestWindow
    { r with outstandingParts := scanned.1.length }.sendRequest scanned.1 scanned.2 sent

def extendHashmap (segment : Int64) : Nat → List Bytes → List (Option Bytes) × Nat → List (Option Bytes) × Nat
  | _, [], known => known
  | i, mapHash :: rest, (hashmap, height) =>
    let idx := (Int64.ofNat i + segment * Int64.ofNat hashmapMaxLen).toInt
    if idx < 0 ∨ hashmap.length ≤ idx then (hashmap, height)
    else
      extendHashmap segment (i + 1) rest
        (hashmap.set idx.toNat (some mapHash), if hashmap[idx.toNat]?.join.isNone then height + 1 else height)

def parseHmu (plaintext : Bytes) : Except ResourceError (Int64 × Bytes) :=
  match Msgpack.unpack (plaintext.drop 32) with
  | .error e => .error (.hmuUnpack e)
  | .ok (.array (segment :: hashmap :: _)) => do
    let segment ← match segment with
      | .int i => pure i
      | .uint n => pure n.toInt64
      | _ => throw .hmuMalformedSegment
    match hashmap with
    | .bin b => pure (segment, b)
    | _ => throw .hmuMalformedHashmap
  | .ok _ => .error .hmuMalformed

def applyHmu (segment : Int64) (hashes : List Bytes) (sent : Bool) : Outcome :=
  let known := extendHashmap segment 0 hashes (r.hashmap, r.hashmapHeight)
  let r := { r with status := .transferring, hashmap := known.1, hashmapHeight := known.2 }
  if hashes.isEmpty then { resource := r.cancelLocked, error := some .hmuEmpty }
  else { r with waitingForHmu := false }.requestNext sent

/-- `hashmapUpdateLocked`. -/
def hashmapUpdate (plaintext : Bytes) (sent : Bool) : Outcome :=
  if r.status = .failed ∨ ¬ r.waitingForHmu then { resource := r }
  else if plaintext.length < 32 + 1 then { resource := r, error := some .hmuTooShort }
  else
    let r := { r with retriesLeft := r.maxRetries }
    match parseHmu plaintext with
    | .error e => { resource := r, error := some e }
    | .ok update => r.applyHmu update.1 (mapHashes update.2) sent

/-- Where a part with the given map hash is searched: within one window from the end of the gap-free run. -/
def findPart (mapHash : Bytes) : Option Nat :=
  let start := r.consecutiveCompletedHeight.toNat
  (List.range' start (min (start + r.window) r.hashmap.length - start)).find? fun i =>
    r.hashmap[i]?.join == some mapHash

def completedHeight (parts : List ResourcePart) (height : Int) : Int :=
  height + ((parts.drop (height + 1).toNat).takeWhile (·.receivedData.isSome)).length

def fillPart (i : Nat) (data : Bytes) : Resource :=
  let parts := r.parts.modify i fun part => { part with receivedData := some data }
  let height := if (i : Int) = r.consecutiveCompletedHeight + 1 then (i : Int) else r.consecutiveCompletedHeight
  { r with
    parts
    receivedCount := r.receivedCount + 1
    consecutiveCompletedHeight := completedHeight parts height
    outstandingParts := r.outstandingParts - 1 }

def growWindow : Resource :=
  if r.window < r.windowMax then
    { r with
      window := r.window + 1
      windowMin := if r.windowFlexibility - 1 < r.window + 1 - r.windowMin then r.windowMin + 1 else r.windowMin }
  else r

/-- The position that a part fills; none for a part that is not expected and for one that is there already. -/
def missingPart (data : Bytes) : Option Nat :=
  (r.findPart (mapHash r.randomHash data)).filter fun i => (r.receivedAt i).isNone

def storePart (data : Bytes) : Resource := (r.missingPart data).elim r fun i => r.fillPart i data

/-- The status while parts arrive. One that comes late does not bring back a resource that is being assembled. -/
def receivingStatus (status : ResourceStatus) : ResourceStatus :=
  if status ≠ .complete ∧ status ≠ .corrupt ∧ status ≠ .assembling then .transferring else status

/-- The end of `ReceivePart`: assembly once, with the last part, or the next request once all have arrived. -/
def afterPart (filled : Bool) : Outcome :=
  if r.receivedCount = r.totalParts ∧ ¬ r.assemblyLock then
    { resource := { r with assemblyLock := true }, effects := [.assemble] }
  else if filled = true ∧ r.outstandingParts = 0 then { resource := r.growWindow, effects := [.requestNext] }
  else { resource := r }

def progress (r : Resource) (filled : Bool) : List ResourceEffect :=
  if filled = true ∧ r.progressCallback = true then [.progress] else []

def receivePart (data : Bytes) : Outcome :=
  if r.status = .failed then { resource := r, error := some .transferFailed }
  else
    let filled := (r.missingPart data).isSome
    let o := ({ r with status := receivingStatus r.status }.storePart data).afterPart filled
    { o with effects := r.progress filled ++ o.effects }

def proof (data : Bytes) : Bytes := r.hash ++ fullHash (data ++ r.hash)

def metadataOf (m : List (Msgpack.Value × Msgpack.Value)) : Table Bytes :=
  m.foldl
    (fun t e =>
      match e with
      | (.str k, .bin v) => t.insert k v
      | _ => t)
    ∅

def splitMetadata (data : Bytes) : Table Bytes × Bytes :=
  if r.hasMetadata ∧ 3 ≤ data.length then
    let size := beNat (data.take 3)
    if 3 + size ≤ data.length then
      let metadata := match Msgpack.unpack ((data.drop 3).take size) with
        | .ok (.map m) => metadataOf m
        | _ => r.metadata
      (metadata, data.drop (3 + size))
    else (r.metadata, data)
  else (r.metadata, data)

/-- The bytes of all parts; none if one is missing. -/
def received (parts : List ResourcePart) : Option Bytes :=
  (parts.mapM fun part : ResourcePart => part.receivedData).map List.flatten

/-- A status that `Assemble` gives up with, and whether it cancels as for a corrupt resource. -/
abbrev AssemblyFailure := ResourceStatus × Bool

def inflate (z : Bzip2) (data : Bytes) : Except AssemblyFailure Bytes :=
  if ¬ r.compressed then .ok data
  else
    match z.decompress data (if r.maxDecompressedSize = 0 then resourceAutoCompressMaxSize else r.maxDecompressedSize) with
    | .ok data => .ok data
    | .error .tooLarge => .error (.corrupt, true)
    | .error .other => .error (.failed, false)

def unwrap (z : Bzip2) (token : Token) : Except AssemblyFailure Bytes :=
  match received r.parts with
  | none => .error (.failed, false)
  | some stream =>
    match if r.encrypted then token.decrypt stream else some stream with
    | none => .error (.failed, false)
    | some assembled =>
      if assembled.length < resourceRandomHashSize then .error (.corrupt, false)
      else r.inflate z (assembled.drop resourceRandomHashSize)

def conclude (data : Bytes) (sent : Bool) : Outcome :=
  { resource := { r with
      status := .complete
      metadata := (r.splitMetadata data).1
      data := (r.splitMetadata data).2 }
    effects :=
      (if sent = true ∧ r.hash ≠ [] then [.send .resourcePrf (r.proof data)] else []) ++
        if r.callback then [.callback] else [] }

def assemble (z : Bzip2) (token : Token) (sent : Bool) : Outcome :=
  match r.unwrap z token with
  | .error (status, cancel) =>
    { resource := { r with status }
      effects := if cancel then r.cancelCorruptLocked sent else [] }
  | .ok data =>
    if fullHash (data ++ r.randomHash) ≠ r.hash then { resource := { r with status := .corrupt } }
    else r.conclude data sent

/-! ### The sender -/

/-- `Advertise`. Go visits the entries of the advertisement in any order; this is the order of the source. -/
def advertise (sent : Bool) : Outcome :=
  let packet := ResourceAdvertisement.pack r.advertisement.entries
  { resource := { r with
      status := .advertised
      retriesLeft := r.maxAdvRetries
      advertisementPacket := some packet }
    effects := if sent then [.send .resourceAdv packet] else []
    error := if sent then none else some .send }

/-- `hmuSegmentForMapHash`: how far the receiver is and the segment it needs, if there is one. -/
def hmuSegmentForMapHash (parts : List ResourcePart) (lastMapHash : Bytes) (startHeight : Nat) : Nat × Option Nat :=
  let scanned := (parts.drop startHeight).take collisionGuardSize
  let found := scanned.findIdx fun part => part.mapHash.getD [] == lastMapHash
  let partIndex := startHeight + min (found + 1) scanned.length
  (partIndex - 1 - resourceWindowMax,
    if partIndex % hashmapMaxLen = 0 then some (partIndex / hashmapMaxLen) else none)

/-- `hmuPacketData`; none for an error. -/
def hmuPacketData (segment : Nat) : Option Bytes :=
  let hashes := hashmapSegment r.hashmap segment
  if hashes.isEmpty then none
  else some (r.hash ++ Msgpack.pack false (.array [.int (Int64.ofNat segment), .bin (flatHashmap hashes)]))

def markSent (i : Nat) : Resource :=
  if (r.parts[i]?.map (·.sent)).getD true then r
  else
    { r with
      parts := r.parts.modify i fun part => { part with sent := true }
      sentParts := r.sentParts + 1 }

def sendParts (r : Resource) (sends : Nat → Bool) : List Bytes → Outcome
  | [] => { resource := r }
  | mapHash :: rest =>
    match r.parts.findIdx? fun part => part.mapHash.getD [] == mapHash with
    | none => r.sendParts sends rest
    | some i =>
      if sends 0 then
        let o := (r.markSent i).sendParts (fun k => sends (k + 1)) rest
        { o with effects := .send .resource ((r.parts[i]?.map (·.data)).getD []) :: o.effects }
      else { resource := r, error := some .send }

def sendHmu (lastMapHash : Bytes) (sent : Bool) : Outcome :=
  let found := hmuSegmentForMapHash r.parts lastMapHash r.receiverMinConsecutiveHeight
  let r := { r with receiverMinConsecutiveHeight := found.1 }
  match found.2 with
  | none => { resource := r.cancelLocked, error := some .sequencing }
  | some segment =>
    match r.hmuPacketData segment with
    | none => { resource := r.cancelLocked, error := some .hmuEmptySegment }
    | some data =>
      if sent then { resource := r, effects := [.send .resourceHmu data] }
      else { resource := r, error := some .send }

/-- The end of `Request`. -/
def awaitProof : Resource :=
  if r.totalParts ≤ r.sentParts then { r with status := .awaitingProof } else r

/-- `Request` after the loop that sends parts: a quoted map hash asks for the next segment of the hashmap. -/
def finishRequest (parts : Outcome) (lastMapHash : Option Bytes) (sends : Nat → Bool) : Outcome :=
  if parts.error.isSome then parts
  else
    match lastMapHash with
    | none => { parts with resource := parts.resource.awaitProof }
    | some lastMapHash =>
      let hmu := parts.resource.sendHmu lastMapHash (sends parts.effects.length)
      { resource := if hmu.error.isSome then hmu.resource else hmu.resource.awaitProof
        effects := parts.effects ++ hmu.effects
        error := hmu.error }

def serveRequest (offset : Nat) (lastMapHash : Option Bytes) (requestData : Bytes) (sends : Nat → Bool) :
    Outcome :=
  if requestData.length < offset + r.hash.length then { resource := r, error := some .requestTooShort }
  else if (requestData.drop offset).take r.hash.length ≠ r.hash then
    { resource := r, error := some .requestHashMismatch }
  else finishRequest (r.sendParts sends (mapHashes (requestData.drop (offset + r.hash.length)))) lastMapHash sends

/-- `Request`. The function says for each packet that it would send whether that succeeds. -/
def request (requestData : Bytes) (sends : Nat → Bool) : Outcome :=
  if r.status = .failed then { resource := r, error := some .transferFailed }
  else
    match requestData.head? with
    | none => { resource := r, error := some .requestInvalid }
    | some marker =>
      let r := { r with status := .transferring, retriesLeft := r.maxRetries }
      if marker = 0xff then
        r.serveRequest (1 + resourceMapHashLen) (some ((requestData.drop 1).take resourceMapHashLen)) requestData sends
      else r.serveRequest 1 none requestData sends

def validateProof (proofData : Bytes) : Outcome :=
  if r.status = .failed ∨ r.status = .complete then { resource := r }
  else
    let valid := r.hash ≠ [] ∧ proofData.length = r.hash.length * 2 ∧ proofData.take r.hash.length = r.hash ∧
      proofData.drop r.hash.length = r.expectedProof
    { resource := { r with status := if valid then .complete else .failed }
      effects := if r.callback then [.callback] else [] }

/-! ### Timeouts -/

def shrinkWindow : Resource :=
  if r.windowMin < r.window then
    if r.windowMin < r.windowMax then
      { r with
        window := r.window - 1
        windowMax :=
          if r.windowFlexibility - 1 < r.windowMax - 1 - (r.window - 1) then r.windowMax - 2 else r.windowMax - 1 }
    else { r with window := r.window - 1 }
  else r

def resendAdvertisement (sent : Bool) : Outcome :=
  let packet := ResourceAdvertisement.pack r.advertisement.entries
  let r := { r with retriesLeft := r.retriesLeft - 1, advertisementPacket := some packet }
  if sent then { resource := r, effects := [.send .resourceAdv packet] } else { resource := r.cancelLocked }

/-- The parts that are missing are requested again. The error of the request is dropped. -/
def retryRequest (sent : Bool) : Outcome :=
  { { r.shrinkWindow with retriesLeft := r.retriesLeft - 1, waitingForHmu := false }.requestNext sent with
    error := none }

def queryProof : Outcome :=
  { resource := { r with retriesLeft := r.retriesLeft - 1 }
    effects := [.cacheRequest (r.hash ++ r.expectedProof)] }

/-- `watchdogStep` after the deadline of the present state. -/
def watchdogExpired (sent : Bool) : Outcome :=
  match r.status with
  | .advertised => if r.retriesLeft = 0 then { resource := r.cancelLocked } else r.resendAdvertisement sent
  | .transferring =>
    if r.initiator = true ∨ r.retriesLeft = 0 then { resource := r.cancelLocked } else r.retryRequest sent
  | .awaitingProof => if r.retriesLeft = 0 then { resource := r.cancelLocked } else r.queryProof
  | _ => { resource := r }

/-- `watchdogStep`, given whether the deadline of the present state has passed. -/
def watchdogStep (expired sent : Bool) : Outcome :=
  match r.status with
  | .none | .queued => { resource := r.cancelLocked }
  | _ => if expired then r.watchdogExpired sent else { resource := r }

end Resource

/-! ### Runs -/

/-- A call with what it is given: the token of the link, and for a call that sends whether it can. -/
inductive ResourceOperation where
  | request (requestData : Bytes) (sends : Nat → Bool)
  | receivePart (data : Bytes)
  | hashmapUpdate (plaintext : Bytes) (sent : Bool)
  | requestNext (sent : Bool)
  | validateProof (proofData : Bytes)
  | cancel (linkActive sent : Bool)
  | assemble (token : Token) (sent : Bool)
  | watchdogStep (expired sent : Bool)

def Resource.perform (z : Bzip2) (r : Resource) : ResourceOperation → Outcome
  | .request requestData sends => r.request requestData sends
  | .receivePart data => r.receivePart data
  | .hashmapUpdate plaintext sent => r.hashmapUpdate plaintext sent
  | .requestNext sent => r.requestNext sent
  | .validateProof proofData => r.validateProof proofData
  | .cancel linkActive sent => r.cancel linkActive sent
  | .assemble token sent => r.assemble z token sent
  | .watchdogStep expired sent => r.watchdogStep expired sent

end Reticulum
