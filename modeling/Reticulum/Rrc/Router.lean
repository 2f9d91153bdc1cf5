import Reticulum.Rrc.Rooms

/-! The router of the chat hub (rrc/router.go): from a packet on a link to the payloads that are queued. -/

namespace Reticulum.Rrc

open Cbor

structure Config where
  unicode : Text.Unicode
  identityHash : Option Bytes
  enablePrivateCommands : Bool
  maxNickBytes : Int
  maxRoomNameBytes : Int
  maxMsgBodyBytes : Int
  rateLimitMsgsPerMinute : Int

structure Hub where
  sessions : SessionManager
  rooms : RoomManager

/-- The handlers that `RoutePacket` chooses from. -/
inductive Handler
  | pong
  | resource
  | preWelcome
  | reHello
  | join
  | part
  | message
  | ping
  deriving DecidableEq

/-- What the hub does with a packet. `EmitError` answers on the link the packet came from, and so does
    `HandleOperatorCommand`; a payload is queued once for every recipient. -/
inductive Outcome
  | ignored
  | error (text : String) (room : Option Bytes)
  | command (room : Option Bytes) (text : Bytes)
  | forward (recipients : List Link) (payload : Bytes)
  | handled (handler : Handler)

variable (cfg : Config) (hub : Hub) (link : Link)

/-- Errors are sent only by a hub with an identity. -/
def emitError (text : String) (room : Option Bytes) : Outcome :=
  if cfg.identityHash.isSome then .error text room else .ignored

/-- A field that is missing or null, which is nil to the router. -/
def isNil : Option Value → Bool
  | none | some .null => true
  | _ => false

def roomPtrOf : Option Value → Option Bytes
  | some (.text s) => some s
  | _ => none

def normRoom (room : Bytes) : Except String Bytes :=
  let nr := pythonLower cfg.unicode (pythonTrim room)
  if nr = [] then .error "room name must not be empty"
  else if cfg.maxRoomNameBytes < nr.length then
    .error s!"room name too long: {nr.length} bytes > {cfg.maxRoomNameBytes} bytes"
  else .ok nr

def learnNick (n : Bytes) : Hub :=
  let old := hub.sessions.nickOf link
  if old = some n then hub
  else { hub with sessions := (hub.sessions.setNick link (some n)).updateNickIndex link cfg.unicode old (some n) }

def adoptNick (env : Map) : Hub × Map :=
  match env.get kNick with
  | some (.text nick) =>
    let n := normalizeNick nick cfg.maxNickBytes
    if n = [] then (hub, env.pop kNick) else (learnNick cfg hub link n, env.set kNick (.text n))
  | none | some .null =>
    match hub.sessions.nickOf link with
    | some old =>
      let n := normalizeNick old cfg.maxNickBytes
      (hub, if n = [] then env else env.set kNick (.text n))
    | none => (hub, env)
  | some _ => (hub, env.pop kNick)

def isForeignDirectNotice (env : Map) (t : Int64) : Bool :=
  match cfg.identityHash, env.get kDst with
  | some idHash, some (.bytes dst) => t == tNotice && idHash != [] && dst != [] && dst != idHash
  | _, _ => false

def startsWithSlash (s : Bytes) : Bool := (pythonTrim s).head? == some 47

def slashCommand (env : Map) (t : Int64) : Option Bytes :=
  match env.get kBody with
  | some (.text body) =>
    if (t == tMsg || t == tNotice) && !isForeignDirectNotice cfg env t && startsWithSlash body then some body else none
  | _ => none

def privateCommand (env : Map) (idHash dst : Bytes) : Option Bytes :=
  if cfg.enablePrivateCommands && dst == idHash then ((env.get kBody).bind bodyText).filter startsWithSlash else none

def handleDirectNotice (peerHash : Bytes) (env : Map) : Hub × Outcome :=
  match cfg.identityHash with
  | none => (hub, .ignored)
  | some idHash =>
    match env.get kRoom, env.get kDst with
    | none, some (.bytes dst) | some .null, some (.bytes dst) =>
      match privateCommand cfg env idHash dst with
      | some text => (hub, .command none text)
      | none =>
        match hub.sessions.getLinkByHash dst with
        | none => (hub, emitError cfg "destination not connected" none)
        | some target =>
          let (hub, env) := adoptNick cfg hub link (env.set kSrc (.bytes peerHash))
          (hub, .forward [target] (encode (.map (env.set kDst (.bytes dst)))))
    | none, _ | some .null, _ => (hub, emitError cfg "direct notice requires destination identity" none)
    | some _, _ => (hub, emitError cfg "direct notice must not include room" none)

/-- The room that a message is for, or what the hub does when it names none or is too large. -/
def addressedRoom (env : Map) (t : Int64) : Except Outcome Bytes :=
  match env.get kRoom with
  | some (.text room) =>
    if room = [] then .error (if t == tNotice then .ignored else emitError cfg "message requires room name" none)
    else
      match env.get kBody with
      | some (.text body) =>
        if t != tNotice ∧ cfg.maxMsgBodyBytes < body.length then
          .error (emitError cfg
            s!"message too large: {body.length} bytes > {cfg.maxMsgBodyBytes} bytes" none)
        else .ok room
      | _ => .ok room
  | _ => .error (if t == tNotice then .ignored else emitError cfg "message requires room name" none)

def outsideGate (room : Bytes) : Option String × RoomManager :=
  if hub.sessions.inRoom link room then (none, hub.rooms)
  else if (hub.rooms.registryGet room).isSome || hub.rooms.getRoomMembers room != [] then
    let (st, rooms) := hub.rooms.ensureRoomState room none
    (if st.noOutsideMsgs then some "no outside messages (+n)" else none, rooms)
  else (some "no such room", hub.rooms)

def moderationGate (rooms : RoomManager) (room peerHash : Bytes) : Option String × RoomManager :=
  let (banned, rooms) := rooms.isRoomBanned room peerHash
  if banned then (some "banned from room", rooms)
  else
    let (moderated, rooms) := rooms.isRoomModerated room
    if moderated then
      let (voiced, rooms) := rooms.isRoomVoiced room peerHash
      (if voiced then none else some "room is moderated (+m)", rooms)
    else (none, rooms)

def roomGate (room peerHash : Bytes) : Option String × RoomManager :=
  match outsideGate hub link room with
  | (some e, rooms) => (some e, rooms)
  | (none, rooms) => moderationGate rooms room peerHash

def handleMessage (peerHash : Bytes) (env : Map) (t : Int64) : Hub × Outcome :=
  match slashCommand cfg env t with
  | some body => (hub, .command (roomPtrOf (env.get kRoom)) body)
  | none =>
    if t == tNotice && !isNil (env.get kDst) then handleDirectNotice cfg hub link peerHash env
    else
      match addressedRoom cfg env t with
      | .error outcome => (hub, outcome)
      | .ok room =>
        match normRoom cfg room with
        | .error e => (hub, emitError cfg e none)
        | .ok nr =>
          match roomGate hub link nr peerHash with
          | (some e, rooms) => ({ hub with rooms := rooms }, emitError cfg e (some nr))
          | (none, rooms) =>
            let env := (env.set kSrc (.bytes peerHash)).set kRoom (.text nr)
            let (hub, env) := adoptNick cfg { hub with rooms := rooms } link env
            (hub, .forward (hub.rooms.getRoomMembers nr) (encode (.map env)))

/-- The switch of `RoutePacket`. The second argument is the message type, when it is an integer. -/
def dispatch (welcomed : Bool) (t : Option Int64) : Option Handler :=
  if t = some tPong then some .pong
  else if t = some tResource then some .resource
  else if !welcomed then some .preWelcome
  else if t = some tHello then some .reHello
  else if t = some tJoin then some .join
  else if t = some tPart then some .part
  else if t = some tMsg ∨ t = some tNotice ∨ t = some tAction then some .message
  else if t = some tPing then some .ping
  else none

def identifiedPeer (remoteIdentity : Option Bytes) : Option Bytes :=
  (hub.sessions.peerOf link).or remoteIdentity

/-- `RoutePacket` up to the decoding: the peer that the packet is from, and whether the rate limit lets it pass. -/
def admission (now : Float) (remoteIdentity : Option Bytes) : Option (Bytes × Bool × SessionManager) :=
  match hub.sessions.getSession link, identifiedPeer hub link remoteIdentity with
  | some _, some peerHash =>
    let sessions := if (hub.sessions.peerOf link).isSome then hub.sessions else hub.sessions.setPeer link peerHash
    some (peerHash, sessions.refillAndTake link now cfg.rateLimitMsgsPerMinute 1)
  | _, _ => none

def routePacket (now : Float) (remoteIdentity : Option Bytes) (data : Bytes) : Hub × Outcome :=
  match admission cfg hub link now remoteIdentity with
  | none => (hub, .ignored)
  | some (_, false, sessions) => ({ hub with sessions := sessions }, emitError cfg "rate limited" none)
  | some (peerHash, true, sessions) =>
    let hub := { hub with sessions := sessions }
    match decodeEnvelope data with
    | .error e => (hub, emitError cfg s!"bad message: {e}" none)
    | .ok env =>
      let t := (env.get kT).bind intValue
      match dispatch (hub.sessions.isWelcomed link) t with
      | none => (hub, .ignored)
      | some .message => handleMessage cfg hub link peerHash env (t.getD 0)
      | some handler => (hub, .handled handler)

end Reticulum.Rrc
