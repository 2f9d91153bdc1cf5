import Reticulum.Rrc.Router

/-! Who is on the chat hub, under which nickname and in which rooms (rrc/router.go, rrc/commands.go, rrc/service.go). Each
event runs under the dispatch lock. -/

namespace Reticulum.Rrc

open Cbor

def bHelloNickLegacy : Value := .int64 64

def envNick (cfg : Config) : Option Value → Option Bytes
  | some (.text s) => some (normalizeNick s cfg.maxNickBytes) |>.filter (· ≠ [])
  | _ => none

/-- The nickname that `learnHelloIdentity` adopts. -/
def helloNick (cfg : Config) (env : Map) : Option Bytes :=
  (envNick cfg (env.get kNick)).or <|
    match env.get kBody with
    | some (.map body) => envNick cfg (Map.get body bHelloNickLegacy)
    | _ => none

namespace SessionManager

/-- `learnHelloIdentity`, without the capabilities. -/
def learnHelloIdentity (m : SessionManager) (cfg : Config) (link : Link) (env : Map) : Option Bytes × SessionManager :=
  match helloNick cfg env with
  | some n => (some n, m.setNick link (some n))
  | none => (none, m)

/-- `handlePreWelcome` of a HELLO. -/
def handlePreWelcome (m : SessionManager) (cfg : Config) (link : Link) (env : Map) : SessionManager :=
  let oldNick := m.nickOf link
  let (newNick, m) := m.learnHelloIdentity cfg link env
  m.sendWelcome link cfg.unicode oldNick newNick

end SessionManager

namespace Hub

variable (hub : Hub) (cfg : Config) (link : Link)

def handleReHello (env : Map) : Hub :=
  if cfg.identityHash = none then hub
  else
    let ((oldNick, oldRooms), sessions) := hub.sessions.beginReHello link
    let rooms := oldRooms.foldl (fun rooms room => rooms.removeMember room link) hub.rooms
    let (newNick, sessions) := sessions.learnHelloIdentity cfg link env
    { sessions := sessions.sendWelcome link cfg.unicode oldNick newNick, rooms }

/-- `handleJoin` of a session that may have another room; whether the mode, the key and the bans let it in is given. -/
def handleJoin (peerHash room : Bytes) (admitted : Bool) : Hub :=
  let rooms := (hub.rooms.ensureRoomState room none).2
  if admitted then
    let rooms := if rooms.getRoomMembers room = [] then (rooms.ensureRoomState room (some peerHash)).2 else rooms
    { sessions := hub.sessions.addSessionRoom link room, rooms := rooms.addMember room link }
  else { hub with rooms }

def handlePart (room : Bytes) : Hub :=
  let left := hub.rooms.removeMember room link
  { sessions := hub.sessions.discardSessionRoom link room
    rooms :=
      if hub.rooms.getRoomMembers room = [] then hub.rooms
      else if left.getRoomMembers room = [] then (left.removeMember room link).dropUnregistered room
      else left }

/-- What `handleKick` and `handleBan` do to a link that is in the room. -/
def expel (room : Bytes) : Hub where
  sessions := hub.sessions.discardSessionRoom link room
  rooms := hub.rooms.discardMember room link

def handleKick (room : Bytes) : Hub := if hub.sessions.inRoom link room then hub.expel link room else hub

def handleBan (room targetHash : Bytes) : Hub :=
  let (st, rooms) := hub.rooms.ensureRoomState room none
  (hub.rooms.getRoomMembers room).foldl
    (fun hub other => if hub.sessions.peerOf other = some targetHash then hub.expel other room else hub)
    { hub with rooms := rooms.stateSet room { st with bans := hexKey targetHash :: st.bans } }

def onClose : Hub where
  sessions := (hub.sessions.onLinkClosed link cfg.unicode).2
  rooms := (((hub.sessions.getSession link).map (·.rooms)).getD []).foldl (fun rooms room => rooms.removeMember room link)
    hub.rooms

/-- `PruneUnusedRegisteredRooms`, of which the rooms that were not used for long are given. -/
def pruneUnusedRegisteredRooms (unused : List Bytes) : Hub :=
  { hub with
    rooms := unused.foldl (fun rooms room =>
      if rooms.getRoomMembers room = [] then
        { rooms with roomRegistry := rooms.roomRegistry.erase room, roomState := rooms.roomState.erase room }
      else rooms) hub.rooms }

/-- The packets of a link that has been welcomed are those of `dispatch`. -/
inductive Event
  | established (link : Link) (now : Float)
  | identified (link : Link) (peerHash : Option Bytes)
  | hello (link : Link) (env : Map)
  | message (link : Link) (env : Map)
  | setNick (link : Link) (nick : Option Bytes)
  | join (link : Link) (peerHash room : Bytes) (admitted : Bool)
  | part (link : Link) (room : Bytes)
  | kick (target : Link) (room : Bytes)
  | ban (room targetHash : Bytes)
  | closed (link : Link)
  | prune (unused : List Bytes)
  | stop

/-- A link is established once, and joins, parts and sends messages when it has been welcomed. -/
def step (cfg : Config) (isBanned : Bytes → Bool) (hub : Hub) : Event → Option Hub
  | .established link now =>
    if hub.sessions.getSession link = none then
      some { hub with sessions := hub.sessions.onLinkEstablished link now cfg.rateLimitMsgsPerMinute }
    else none
  | .identified link peerHash => some { hub with sessions := (hub.sessions.onRemoteIdentified link isBanned peerHash).2 }
  | .hello link env =>
    some (if hub.sessions.isWelcomed link then hub.handleReHello cfg link env
      else { hub with sessions := hub.sessions.handlePreWelcome cfg link env })
  | .message link env => if hub.sessions.isWelcomed link then some (adoptNick cfg hub link env).1 else none
  | .setNick link nick => some { hub with sessions := hub.sessions.setNick link nick }
  | .join link peerHash room admitted =>
    if hub.sessions.isWelcomed link then some (hub.handleJoin link peerHash room admitted) else none
  | .part link room => if hub.sessions.isWelcomed link then some (hub.handlePart link room) else none
  | .kick target room => some (hub.handleKick target room)
  | .ban room targetHash => some (hub.handleBan room targetHash)
  | .closed link => some (hub.onClose cfg link)
  | .prune unused => some (hub.pruneUnusedRegisteredRooms unused)
  | .stop => some { sessions := .new, rooms := { hub.rooms with rooms := ∅, roomState := ∅, roomRegistry := ∅ } }

end Hub
end Reticulum.Rrc
