import Reticulum.Table

/-! # Packet hashes that have been seen (rns/transport.go)

The transport remembers the hashes of inbound packets in two maps. When the first one is full it takes the place of the
second. -/

namespace Reticulum

def packetHashRotateDefault : Nat := 50000

structure PacketHashes where
  packetHashes : Table Int := ∅
  packetHashesPrev : Table Int := ∅
  packetHashRotateAt : Int

namespace PacketHashes

def empty (packetHashRotateAt : Int) : PacketHashes := { packetHashRotateAt }

variable (s : PacketHashes)

/-- `ensureStateLocked`, for these fields. -/
def ensureState : PacketHashes :=
  { s with packetHashRotateAt := if s.packetHashRotateAt ≤ 0 then packetHashRotateDefault else s.packetHashRotateAt }

/-- `packetHashSeenLocked`, which is also the test of `packetFilter`. -/
def packetHashSeen (packetHash : Bytes) : Bool :=
  packetHash ∈ s.packetHashes || packetHash ∈ s.packetHashesPrev

def forgetPacketHash (packetHash : Bytes) : PacketHashes :=
  let s := s.ensureState
  { s with
    packetHashes := s.packetHashes.erase packetHash
    packetHashesPrev := s.packetHashesPrev.erase packetHash }

/-- `seenOrRememberPacketHashLocked`. -/
def seenOrRememberPacketHash (packetHash : Bytes) (now : Int) : Bool × PacketHashes :=
  let s := s.ensureState
  if packetHash ∈ s.packetHashes then (true, s)
  else if packetHash ∈ s.packetHashesPrev then (true, s)
  else
    let s :=
      if s.packetHashes.keys.length ≥ s.packetHashRotateAt then
        { s with packetHashesPrev := s.packetHashes, packetHashes := ∅ }
      else s
    (false, { s with packetHashes := s.packetHashes.insert packetHash now })

inductive Call where
  | seenOrRemember (packetHash : Bytes) (now : Int)
  | forget (packetHash : Bytes)
deriving DecidableEq

def step : Call → PacketHashes
  | .seenOrRemember packetHash now => (s.seenOrRememberPacketHash packetHash now).2
  | .forget packetHash => s.forgetPacketHash packetHash

def run (calls : List Call) : PacketHashes := calls.foldl step s

def remembered (s : PacketHashes) : List Call → List Bytes
  | [] => []
  | call :: calls =>
    match call with
    | .seenOrRemember packetHash now =>
      if (s.seenOrRememberPacketHash packetHash now).1 then (s.step call).remembered calls
      else packetHash :: (s.step call).remembered calls
    | .forget _ => (s.step call).remembered calls

end PacketHashes
end Reticulum
