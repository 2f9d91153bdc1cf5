import Reticulum.Packet
import Reticulum.Rrc.Router

/-! Server bans of the chat hub (rrc/trust.go, rrc/commands.go, rrc/service.go).

A ban is looked at when a link is identified, and is otherwise enforced by tearing links down. -/

namespace Reticulum.Rrc

open Cbor Text

def isUnicodeSpace (c : Char) : Bool := unicodeSpaces.contains (String.utf8EncodeChar c)

def splitFieldsPython (s : Bytes) : List Bytes :=
  (((runes s).splitOnP isUnicodeSpace).filter (· ≠ [])).map encodeRunes

def dropStart (start s : Bytes) : Bytes := if start.isPrefixOf s then s.drop start.length else s

def normalizePeerToken (token : Bytes) : Bytes :=
  let token := pythonTrim token
  if token.head? = some 64 then pythonTrim token.tail else token

/-- `ParseIdentityHash`; none for its errors. -/
def parseIdentityHash (u : Unicode) (text : Bytes) : Option Bytes :=
  let s := dropStart (ascii "0x") (lower u (pythonTrim text))
  (hexDecode (encodeRunes ((runes s).filter fun c => !isUnicodeSpace c))).filter fun b => 4 ≤ b.length

def isLowerHex (s : Bytes) : Bool := s.all fun c => (48 ≤ c && c ≤ 57) || (97 ≤ c && c ≤ 102)

def SessionManager.linksByHash (m : SessionManager) (start : Bytes) : List Link :=
  (m.indexByHash.entries.filter fun e => start.isPrefixOf e.1).map (·.2)

/-- `FindTargetLinks` in all rooms. Callers look at the number of the links, and at the link if there is one. -/
def SessionManager.findTargetLinks (m : SessionManager) (u : Unicode) (token : Bytes) : List Link :=
  let t := pythonLower u (normalizePeerToken token)
  let hexCandidate := dropStart (ascii "0x") t
  if t = [] then []
  else
    match if isLowerHex hexCandidate && 6 ≤ hexCandidate.length then hexDecode hexCandidate else none with
    | some start => m.linksByHash start
    | none => (m.indexByNick.lookup (SessionManager.nickIndexKey u t)).getD []

/-- The banned identities as `hexKey`, the links torn down, and the payloads queued, without the hub's own. -/
structure Server where
  hub : Hub
  banned : List Bytes := []
  torn : List Link := []
  queued : List (Link × Bytes) := []

namespace Server

variable (cfg : Config) (s : Server)

def isBanned (peerHash : Bytes) : Bool := peerHash ≠ [] ∧ hexKey peerHash ∈ s.banned

def addBan (peerHash : Bytes) : Server := { s with banned := hexKey peerHash :: s.banned }

def klineAdd (target : Bytes) : Server :=
  match s.hub.sessions.findTargetLinks cfg.unicode target with
  | [targetLink] =>
    let s := (s.hub.sessions.peerOf targetLink).elim s s.addBan
    { s with torn := targetLink :: s.torn }
  | _ :: _ => s
  | [] => (parseIdentityHash cfg.unicode target).elim s s.addBan

def klineDel (target : Bytes) : Server :=
  match parseIdentityHash cfg.unicode target with
  | some h => { s with banned := s.banned.filter (· ≠ hexKey h) }
  | none => s

/-- `handleKline`, without its replies. -/
def handleKline (peerHash : Bytes) (parts : List Bytes) : Server :=
  if s.hub.rooms.isServerOp peerHash then
    match parts with
    | _ :: op :: target :: _ =>
      if pythonLower cfg.unicode (pythonTrim op) = ascii "add" then s.klineAdd cfg (normalizePeerToken target)
      else if pythonLower cfg.unicode (pythonTrim op) = ascii "del" then s.klineDel cfg (normalizePeerToken target)
      else s
    | _ => s
  else s

/-- A direct notice of a command: the link of the target, and what goes into the envelope. -/
structure DirectNotice where
  target : Link
  id : Bytes
  ts : Int64
  dst : Bytes
  text : Bytes

/-- `MakeEnvelope` for such a notice. -/
def DirectNotice.envelope (n : DirectNotice) (peerHash : Bytes) (nick : Option Bytes) : Map :=
  let nick := normalizeNick (nick.getD []) 32
  [(kV, .int64 rrcVersion), (kT, .int64 tNotice), (kID, .bytes n.id), (kTS, .int64 n.ts), (kSrc, .bytes peerHash),
    (kDst, .bytes n.dst), (kBody, .text n.text)] ++ if nick = [] then [] else [(kNick, .text nick)]

/-- What the handling of a packet finds: the identities of a reload, the direct notice that a command makes, and what
    other commands and handlers make of the rooms, the nicknames and the memberships. -/
structure Findings where
  reloaded : Option (List Bytes × List Bytes) := none
  notice : Option DirectNotice := none
  others : Hub

/-- Nothing but an identification and `RoutePacket` sets the peer of a session. -/
def samePeers (hub hub' : Hub) : Bool :=
  (hub.sessions.sessions.keys ++ hub'.sessions.sessions.keys).all fun l => hub'.sessions.peerOf l == hub.sessions.peerOf l

def proceed (f : Findings) : Option Server := if samePeers s.hub f.others then some { s with hub := f.others } else none

/-- `ReloadConfigAndRooms`, for the identities. -/
def reload (f : Findings) : Server :=
  match f.reloaded with
  | some (trusted, banned) =>
    { s with
      hub := { s.hub with rooms := { s.hub.rooms with trusted := trusted.map hexKey } }
      banned := banned.map hexKey }
  | none => s

/-- The end of `sendDirectNotice`, with `EmitDirectNotice`. -/
def sendDirectNotice (link : Link) (peerHash : Bytes) (f : Findings) : Server :=
  match f.notice with
  | some n =>
    let payload := encode (.map (n.envelope peerHash (s.hub.sessions.nickOf link)))
    if payload.length ≤ packetMDU then { s with queued := (n.target, payload) :: s.queued } else s
  | none => s

def handleOperatorCommand (link : Link) (peerHash text : Bytes) (f : Findings) : Option Server :=
  match splitFieldsPython ((pythonTrim text).drop 1) with
  | [] => some s
  | word :: args =>
    let name := pythonLower cfg.unicode word
    if name = ascii "reload" then some (if s.hub.rooms.isServerOp peerHash then s.reload f else s)
    else if name = ascii "kline" then some (s.handleKline cfg peerHash (word :: args))
    else if name ∈ [ascii "dn", ascii "dnotice", ascii "msg", ascii "dnoticeme"] then
      some (s.sendDirectNotice link peerHash f)
    else s.proceed f

/-- `OnPacket`, without the replies to the link. -/
def onPacket (link : Link) (now : Float) (remoteIdentity : Option Bytes) (data : Bytes) (f : Findings) : Option Server :=
  let (hub, outcome) := routePacket cfg s.hub link now remoteIdentity data
  let s' := { s with hub }
  match outcome with
  | .ignored | .error _ _ => some s'
  | .handled _ => s'.proceed f
  | .forward recipients payload => some { s' with queued := recipients.map (·, payload) ++ s.queued }
  | .command _ text =>
    match identifiedPeer s.hub link remoteIdentity with
    | some peerHash => s'.handleOperatorCommand cfg link peerHash text f
    | none => some s'

def onRemoteIdentified (link : Link) (identity : Option Bytes) : Server :=
  let ((banned, _), sessions) := s.hub.sessions.onRemoteIdentified link s.isBanned identity
  { s with hub := { s.hub with sessions }, torn := if banned then link :: s.torn else s.torn }

inductive Action
  | established (link : Link) (now : Float)
  | identified (link : Link) (identity : Option Bytes)
  | closed (link : Link) (rooms : RoomManager)
  | packet (link : Link) (now : Float) (remoteIdentity : Option Bytes) (data : Bytes) (f : Findings)

def step (s : Server) : Action → Option Server
  | .established link now =>
    some { s with
      hub := { s.hub with sessions := s.hub.sessions.onLinkEstablished link now cfg.rateLimitMsgsPerMinute } }
  | .identified link identity => some (s.onRemoteIdentified link identity)
  | .closed link rooms => some { s with hub := { sessions := (s.hub.sessions.onLinkClosed link cfg.unicode).2, rooms } }
  | .packet link now remoteIdentity data f => s.onPacket cfg link now remoteIdentity data f

end Server
end Reticulum.Rrc
