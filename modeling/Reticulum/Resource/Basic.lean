import Reticulum.Crypto
import Reticulum.Msgpack
import Reticulum.Table

/-! Resources, data of any size that goes over a link in parts (rns/resource.go): how the sender prepares one, the
advertisement, and what the receiver makes of it. -/

namespace Reticulum

def resourceMapHashLen : Nat := 4

def resourceRandomHashSize : Nat := 4

def resourceAutoCompressMaxSize : Nat := 64 * 1024 * 1024

def resourceMaxParts : Nat := 10000000

/-- `hashmapMaxLen`: (431 - 134) / 4. -/
def hashmapMaxLen : Nat := 74

def resourceWindowMax : Nat := 75

def collisionGuardSize : Nat := 2 * resourceWindowMax + hashmapMaxLen

inductive ResourceStatus where
  | none
  | queued
  | advertised
  | transferring
  | awaitingProof
  | assembling
  | complete
  | failed
  | corrupt
  | rejected
deriving DecidableEq, Repr

namespace ResourceStatus

def code : ResourceStatus → Nat
  | none => 0
  | queued => 1
  | advertised => 2
  | transferring => 3
  | awaitingProof => 4
  | assembling => 5
  | complete => 6
  | failed => 7
  | corrupt => 8
  | rejected => 9

end ResourceStatus

structure ResourcePart where
  data : Bytes := []
  receivedData : Option Bytes := none
  mapHash : Option Bytes := none
  sent : Bool := false
deriving DecidableEq, Repr

/-- A resource of either side. Callbacks are flags, an advertisement packet its data; clocks and rates are left out. -/
structure Resource where
  initiator : Bool
  status : ResourceStatus
  data : Bytes := []
  hash : Bytes
  randomHash : Bytes
  originalHash : Bytes
  expectedProof : Bytes := []
  size : Int64
  uncompressedSize : Int64
  parts : List ResourcePart
  hashmap : List (Option Bytes)
  totalParts : Nat
  receivedCount : Nat := 0
  hashmapHeight : Nat := 0
  consecutiveCompletedHeight : Int := 0
  window : Nat := 4
  windowMax : Nat := 10
  windowMin : Nat := 2
  windowFlexibility : Nat := 4
  receiverMinConsecutiveHeight : Nat := 0
  maxRetries : Nat := 16
  maxAdvRetries : Nat := 4
  retriesLeft : Nat := 16
  outstandingParts : Nat := 0
  waitingForHmu : Bool := false
  advertisementPacket : Option Bytes := none
  callback : Bool := false
  progressCallback : Bool := false
  requestID : Option Bytes := none
  isResponse : Bool := false
  encrypted : Bool
  compressed : Bool
  sentParts : Nat := 0
  metadata : Table Bytes := ∅
  hasMetadata : Bool := false
  maxDecompressedSize : Nat := 0
  assemblyLock : Bool := false

/-- `getMapHash` with the random hash of a resource. -/
def mapHash (randomHash data : Bytes) : Bytes := (fullHash (data ++ randomHash)).take resourceMapHashLen

/-- The bzip2 package. `compress` is none for an error. The reader takes the header and hands the rest to `blocks`,
    which gives the first bytes of the output, or none for an error in them. -/
structure Bzip2 where
  compress : Int → Bytes → Option Bytes
  blocks : Nat → Bytes → Nat → Option Bytes

namespace Bzip2

/-- Reading at most `n` bytes of what a stream decompresses to. -/
def read (z : Bzip2) (input : Bytes) (n : Nat) : Option Bytes :=
  match input with
  -- "BZh" and the level as a digit
  | 0x42 :: 0x5a :: 0x68 :: level :: stream =>
    if 0x31 ≤ level ∧ level ≤ 0x39 then z.blocks (level.toNat - 0x30) stream n else none
  | _ => none

def Inverts (z : Bzip2) : Prop :=
  ∀ level data compressed, z.compress level data = some compressed → ∀ n, z.read compressed n = some (data.take n)

inductive Failure where
  | tooLarge
  | other
deriving DecidableEq, Repr

/-- `DecompressBzip2WithLimit`. -/
def decompress (z : Bzip2) (input : Bytes) (maxLen : Nat) : Except Failure Bytes :=
  match z.read input (maxLen + 1) with
  | none => .error .other
  | some out => if out.length > maxLen then .error .tooLarge else .ok out

end Bzip2

/-- The token that both ends of an active link hold. A token draws an initialisation vector for each encryption. -/
structure Token where
  encrypt : Bytes → Bytes → Bytes
  decrypt : Bytes → Option Bytes

def Token.Inverts (token : Token) : Prop := ∀ iv plaintext, token.decrypt (token.encrypt iv plaintext) = some plaintext

structure ResourceOptions where
  autoCompress : Bool := false
  autoCompressLimit : Int := 0
  compressionLevel : Int := 0
  metadata : Table Bytes := ∅

def ResourceOptions.normalized (o : ResourceOptions) : ResourceOptions :=
  { o with
    autoCompressLimit := if o.autoCompressLimit ≤ 0 then resourceAutoCompressMaxSize else o.autoCompressLimit
    compressionLevel := if o.compressionLevel = 0 then 6 else o.compressionLevel }

/-- The payload that is sent, compressed or not; none for an error. -/
def compressPayload (z : Bzip2) (data : Bytes) (opts : ResourceOptions) : Option (Bytes × Bool) :=
  if opts.autoCompress = true ∧ (data.length : Int) ≤ opts.autoCompressLimit then
    (z.compress opts.compressionLevel data).map fun compressed =>
      if compressed.length < data.length then (compressed, true) else (data, false)
  else some (data, false)

/-- The entries of a metadata map as `Pack` writes them. -/
def metadataValue (metadata : Table Bytes) : Msgpack.Value :=
  .map (metadata.entries.map fun e => (.str e.1, .bin e.2))

def metadataBytes (metadata : Table Bytes) : Option Bytes :=
  if metadata.entries.isEmpty then some []
  else
    let packed := Msgpack.pack false (metadataValue metadata)
    if packed.length > 0xffffff then none else some (beBytes 3 packed.length ++ packed)

def resourceSdu (mtu mdu : Int) : Nat :=
  let sdu := if mtu ≠ 0 then mtu - 35 - 1 else mdu
  if sdu ≤ 0 then 431 else sdu.toNat

/-- The first `count` slices of `size` bytes. -/
def slices (size count : Nat) (b : Bytes) : List Bytes :=
  (List.range count).map fun i => (b.drop (i * size)).take size

/-- The slices of `sdu` bytes, the last one maybe shorter. The source finds their number with a float64 division, which
    is exact enough below 2^53 bytes. -/
def segments (sdu : Nat) (data : Bytes) : List Bytes := slices sdu ((data.length + sdu - 1) / sdu) data

def outgoingResource (token : Token) (sdu : Nat) (iv randomHash data payload metadataBytes : Bytes) (compressed : Bool)
    (metadata : Table Bytes) : Resource :=
  let hash := fullHash (metadataBytes ++ data ++ randomHash)
  let stream := token.encrypt iv (randomHash ++ metadataBytes ++ payload)
  let parts := segments sdu stream
  { initiator := true
    status := .queued
    data := stream
    hash
    randomHash
    originalHash := hash
    expectedProof := fullHash (metadataBytes ++ data ++ hash)
    size := Int64.ofNat stream.length
    uncompressedSize := Int64.ofNat data.length
    parts := parts.map fun part => { data := part, mapHash := some (mapHash randomHash part) }
    hashmap := parts.map fun part => some (mapHash randomHash part)
    totalParts := parts.length
    encrypted := true
    compressed
    metadata }

/-- `newResourceWithOptions` on an active link, with the bytes that were drawn; none for an error. -/
def newResource (z : Bzip2) (token : Token) (mtu mdu : Int) (iv randomHash data : Bytes) (opts : ResourceOptions) :
    Option Resource := do
  let payload ← compressPayload z data opts.normalized
  let metadataBytes ← metadataBytes opts.metadata
  return outgoingResource token (resourceSdu mtu mdu) iv randomHash data payload.1 metadataBytes payload.2 opts.metadata

/-- `SetRequestID` and `SetResponse`. The copy of an empty slice is nil. -/
def Resource.setRequest (r : Resource) (requestID : Bytes) (isResponse : Bool) : Resource :=
  { r with requestID := if requestID = [] then none else some requestID, isResponse }

structure ResourceAdvertisement where
  t : Int64 := 0
  d : Int64 := 0
  n : Int64 := 0
  h : Bytes := []
  r : Bytes := []
  o : Bytes := []
  i : Int64 := 0
  l : Int64 := 0
  q : Bytes := []
  m : Bytes := []
  encrypted : Bool := false
  compressed : Bool := false
  split : Bool := false
  isRequest : Bool := false
  isResponse : Bool := false
  hasMetadata : Bool := false
deriving DecidableEq, Repr

namespace ResourceAdvertisement

/-- `F`. -/
def flags (adv : ResourceAdvertisement) : UInt8 :=
  (if adv.encrypted then 0x01 else 0) ||| (if adv.compressed then 0x02 else 0) ||| (if adv.split then 0x04 else 0) |||
    (if adv.isRequest then 0x08 else 0) ||| (if adv.isResponse then 0x10 else 0) |||
    (if adv.hasMetadata then 0x20 else 0)

/-- The map that `Pack` writes, its entries in some order. The keys are the letters t d n h r o i l q f m. -/
def entries (adv : ResourceAdvertisement) : List (Bytes × Msgpack.Value) :=
  [([0x74], .int adv.t), ([0x64], .int adv.d), ([0x6e], .int adv.n), ([0x68], .bin adv.h), ([0x72], .bin adv.r),
    ([0x6f], .bin adv.o), ([0x69], .int adv.i), ([0x6c], .int adv.l), ([0x71], .bin adv.q),
    ([0x66], .uint adv.flags.toUInt64), ([0x6d], .bin adv.m)]

/-- `Pack` when the map is visited in the given order. -/
def pack (entries : List (Bytes × Msgpack.Value)) : Bytes :=
  Msgpack.pack false (.map (entries.map fun e => (.str e.1, e.2)))

/-- `m[key]`; a key that is missing and a nil value are the same. -/
def getVal (m : List (Msgpack.Value × Msgpack.Value)) (key : Bytes) : Msgpack.Value :=
  ((m.find? fun e => Msgpack.keyEqual e.1 (.str key)).map (·.2)).getD .nil

def getInt (m : List (Msgpack.Value × Msgpack.Value)) (key : Bytes) : Int64 :=
  match getVal m key with
  | .int i => i
  | .uint n => n.toInt64
  | _ => 0

/-- A field that holds bytes; none for an error. -/
def getBytes (m : List (Msgpack.Value × Msgpack.Value)) (key : Bytes) : Option Bytes :=
  match getVal m key with
  | .nil => some []
  | .bin b => some b
  | _ => none

/-- `UnpackResourceAdvertisement`; none for an error. -/
def unpack (data : Bytes) : Option ResourceAdvertisement :=
  match Msgpack.unpack data with
  | .ok (.map m) => do
    let h ← getBytes m [0x68]
    let r ← getBytes m [0x72]
    let o ← getBytes m [0x6f]
    let q ← getBytes m [0x71]
    let hashmap ← getBytes m [0x6d]
    let f := (getInt m [0x66]).toUInt64.toUInt8
    let t := getInt m [0x74]
    let n := getInt m [0x6e]
    if n < 0 ∨ n.toInt > resourceMaxParts then failure
    if t > 0 ∧ n > t then failure
    return {
      t, d := getInt m [0x64], n, h, r, o, i := getInt m [0x69], l := getInt m [0x6c], q, m := hashmap
      encrypted := f &&& 0x01 ≠ 0
      compressed := f &&& 0x02 ≠ 0
      split := f &&& 0x04 ≠ 0
      isRequest := f &&& 0x08 ≠ 0
      isResponse := f &&& 0x10 ≠ 0
      hasMetadata := f &&& 0x20 ≠ 0 }
  | _ => none

end ResourceAdvertisement

def hashmapSegment (hashmap : List (Option Bytes)) (segment : Nat) : List (Option Bytes) :=
  (hashmap.drop (segment * hashmapMaxLen)).take hashmapMaxLen

def flatHashmap (segment : List (Option Bytes)) : Bytes := segment.flatMap fun h => h.getD []

/-- The advertisement that `buildAdvertisementPacket` packs. -/
def Resource.advertisement (r : Resource) : ResourceAdvertisement where
  t := r.size
  d := r.uncompressedSize
  n := Int64.ofNat r.totalParts
  h := r.hash
  r := r.randomHash
  o := r.originalHash
  i := 1
  l := 1
  q := r.requestID.getD []
  m := flatHashmap (hashmapSegment r.hashmap 0)
  encrypted := r.encrypted
  compressed := r.compressed
  isRequest := r.requestID.isSome && !r.isResponse
  isResponse := r.requestID.isSome && r.isResponse
  hasMetadata := !r.metadata.entries.isEmpty

def mapHashes (b : Bytes) : List Bytes := slices resourceMapHashLen (b.length / resourceMapHashLen) b

def ResourceAdvertisement.resource (adv : ResourceAdvertisement) (callback progressCallback : Bool) : Resource :=
  let totalParts := adv.n.toInt.toNat
  let known := (mapHashes adv.m).take totalParts
  let hashmap := known.map some ++ List.replicate (totalParts - known.length) none
  { initiator := false
    status := .transferring
    hash := adv.h
    randomHash := adv.r
    originalHash := adv.o
    size := adv.t
    uncompressedSize := adv.d
    parts := hashmap.map fun mapHash => { mapHash }
    hashmap
    totalParts
    hashmapHeight := known.length
    consecutiveCompletedHeight := -1
    callback
    progressCallback
    requestID := if adv.q = [] then none else some adv.q
    isResponse := adv.isResponse
    encrypted := adv.encrypted
    compressed := adv.compressed
    hasMetadata := adv.hasMetadata }

/-- What `Accept` registers for an advertisement that no resource of the link has; none for an error. -/
def accept (packet : Bytes) (callback progressCallback : Bool) : Option Resource :=
  (ResourceAdvertisement.unpack packet).map fun adv =>
    { adv.resource callback progressCallback with advertisementPacket := some packet }

end Reticulum
