import Reticulum.Rrc.Session

/-! Rooms of the chat hub (rrc/rooms.go, rrc/trust.go): members and moderation. -/

namespace Reticulum.Rrc

def hexKey (b : Bytes) : Bytes := Text.hexEncode b

/-- The sets of identities hold their `hexKey`. -/
structure RoomState where
  founder : Option Bytes := none
  registered : Bool := false
  moderated : Bool := false
  noOutsideMsgs : Bool := false
  ops : List Bytes := []
  voiced : List Bytes := []
  bans : List Bytes := []

structure RoomManager where
  rooms : Table (List Link)
  roomState : Table RoomState
  roomRegistry : Table RoomState
  /-- The identities that the trust manager takes for server operators. -/
  trusted : List Bytes

namespace RoomManager

variable (m : RoomManager) (room : Bytes)

def getRoomMembers : List Link := (m.rooms.lookup room).getD []

def registryGet : Option RoomState := m.roomRegistry.lookup room

def stateSet (st : RoomState) : RoomManager := { m with roomState := m.roomState.insert room st }

def ensureRoomState (founder : Option Bytes) : RoomState × RoomManager :=
  match m.roomState.lookup room with
  | some st =>
    match st.founder, founder with
    | none, some f =>
      let st := { st with founder := some f, ops := hexKey f :: st.ops }
      (st, m.stateSet room st)
    | _, _ => (st, m)
  | none =>
    let st : RoomState :=
      match m.roomRegistry.lookup room with
      | some base => { base with registered := true }
      | none => { founder := founder, ops := founder.toList.map hexKey }
    (st, m.stateSet room st)

def isServerOp (peerHash : Bytes) : Bool := peerHash ≠ [] ∧ hexKey peerHash ∈ m.trusted

def isRoomBanned (peerHash : Bytes) : Bool × RoomManager :=
  let (st, m) := m.ensureRoomState room none
  (st.bans.contains (hexKey peerHash), m)

def isRoomModerated : Bool × RoomManager :=
  let (st, m) := m.ensureRoomState room none
  (st.moderated, m)

def isRoomVoiced (peerHash : Bytes) : Bool × RoomManager :=
  if m.isServerOp peerHash then (true, m)
  else
    let (st, m) := m.ensureRoomState room none
    (st.founder == some peerHash || st.ops.contains (hexKey peerHash) || st.voiced.contains (hexKey peerHash), m)

variable (link : Link)

def addMember : RoomManager :=
  match m.rooms.lookup room with
  | some links => { m with rooms := m.rooms.insert room (if link ∈ links then links else links ++ [link]) }
  | none => { (m.ensureRoomState room none).2 with rooms := m.rooms.insert room [link] }

def stateDelete : RoomManager := { m with roomState := m.roomState.erase room }

/-- The clean-up of a room that is not registered. -/
def dropUnregistered : RoomManager := if (m.roomState.lookup room).any (!·.registered) then m.stateDelete room else m

def removeMember : RoomManager :=
  match m.rooms.lookup room with
  | none => m
  | some links =>
    if links.filter (· ≠ link) = [] then { m with rooms := m.rooms.erase room }.dropUnregistered room
    else { m with rooms := m.rooms.insert room (links.filter (· ≠ link)) }

def discardMember : RoomManager :=
  match m.rooms.lookup room with
  | none => m
  | some links => { m with rooms := m.rooms.insert room (links.filter (· ≠ link)) }

end RoomManager
end Reticulum.Rrc
