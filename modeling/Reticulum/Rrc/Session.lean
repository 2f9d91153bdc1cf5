import Reticulum.Rrc.Envelope
import Reticulum.Table

/-! Sessions of the chat hub (rrc/session.go). -/

namespace Reticulum.Rrc

abbrev Link := Nat

structure Session where
  welcomed : Bool
  rooms : List Bytes
  peer : Option Bytes
  nick : Option Bytes

structure RateState where
  tokens : Float
  lastRefill : Float

structure SessionManager where
  sessions : AList fun _ : Link => Session
  rate : AList fun _ : Link => RateState
  indexByHash : Table Link
  indexByNick : Table (List Link)

namespace SessionManager

variable (m : SessionManager) (link : Link)

def getSession : Option Session := m.sessions.lookup link

def peerOf : Option Bytes := (m.getSession link).bind (·.peer)

def isWelcomed : Bool := (m.getSession link).any (·.welcomed)

def nickOf : Option Bytes := (m.getSession link).bind (·.nick)

def inRoom (room : Bytes) : Bool := (m.getSession link).any (·.rooms.contains room)

def getLinkByHash (peerHash : Bytes) : Option Link := m.indexByHash.lookup peerHash

def update (f : Session → Session) : SessionManager :=
  match m.getSession link with
  | some sess => { m with sessions := m.sessions.insert link (f sess) }
  | none => m

def setPeer (peerHash : Bytes) : SessionManager := m.update link fun sess => { sess with peer := some peerHash }

def setNick (nick : Option Bytes) : SessionManager := m.update link fun sess => { sess with nick := nick }

variable (u : Text.Unicode)

def nickIndexKey (nick : Bytes) : Bytes := pythonLower u (pythonTrim nick)

def unindexNick (nick : Bytes) : SessionManager :=
  let key := nickIndexKey u nick
  match m.indexByNick.lookup key with
  | some links =>
    let links := links.erase link
    { m with indexByNick := if links = [] then m.indexByNick.erase key else m.indexByNick.insert key links }
  | none => m

def indexNick (nick : Bytes) : SessionManager :=
  let key := nickIndexKey u nick
  let links := (m.indexByNick.lookup key).getD []
  { m with indexByNick := m.indexByNick.insert key (if link ∈ links then links else links ++ [link]) }

def updateNickIndex (oldNick newNick : Option Bytes) : SessionManager :=
  let m := match oldNick with
    | some nick => if nick = [] then m else m.unindexNick link u nick
    | none => m
  match newNick with
  | some nick => if nick = [] then m else m.indexNick link u nick
  | none => m

/-- `BeginReHello`: the nickname and the rooms that the session had. -/
def beginReHello : (Option Bytes × List Bytes) × SessionManager :=
  match m.getSession link with
  | none => ((none, []), m)
  | some sess =>
    ((sess.nick, sess.rooms), m.update link fun sess => { sess with welcomed := false, rooms := [], nick := none })

/-- `SendWelcome`, without what it queues. -/
def sendWelcome (oldNick newNick : Option Bytes) : SessionManager :=
  match m.getSession link with
  | none => m
  | some _ =>
    (if oldNick = newNick then m else m.updateNickIndex link u oldNick newNick).update link fun sess =>
      { sess with welcomed := true }

def addSessionRoom (room : Bytes) : SessionManager :=
  m.update link fun sess => { sess with rooms := if room ∈ sess.rooms then sess.rooms else sess.rooms ++ [room] }

def discardSessionRoom (room : Bytes) : SessionManager :=
  m.update link fun sess => { sess with rooms := sess.rooms.filter (· ≠ room) }

def maxFloat (a b : Float) : Float := if a > b then a else b

def minFloat (a b : Float) : Float := if a < b then a else b

/-- Whether a token could be taken. A link without a rate state is never limited. -/
def refillAndTake (now : Float) (msgsPerMinute : Int) (cost : Float) : Bool × SessionManager :=
  match m.rate.lookup link with
  | none => (true, m)
  | some state =>
    let perMin := Float.ofInt (max 1 msgsPerMinute)
    let elapsed := maxFloat 0 (now - state.lastRefill)
    let tokens := minFloat perMin (state.tokens + elapsed * (perMin / 60))
    if tokens < cost then (false, { m with rate := m.rate.insert link ⟨tokens, now⟩ })
    else (true, { m with rate := m.rate.insert link ⟨tokens - cost, now⟩ })

def onLinkEstablished (now : Float) (msgsPerMinute : Int) : SessionManager :=
  { m with
    sessions := m.sessions.insert link { welcomed := false, rooms := [], peer := none, nick := none }
    rate := m.rate.insert link ⟨Float.ofInt (max 1 msgsPerMinute), now⟩ }

def onRemoteIdentified (isBanned : Bytes → Bool) (peerHash : Option Bytes) : (Bool × Option Bytes) × SessionManager :=
  match m.getSession link, peerHash with
  | some _, some peerHash =>
    ((isBanned peerHash, some peerHash),
      { m.setPeer link peerHash with indexByHash := m.indexByHash.insert peerHash link })
  | _, _ => ((false, none), m)

/-- `onLinkClosedLocked`, without what it does to the rooms: the peer, the nickname and the number of rooms. -/
def onLinkClosed : (Option Bytes × Option Bytes × Nat) × SessionManager :=
  match m.getSession link with
  | none => ((none, none, 0), { m with rate := m.rate.erase link })
  | some sess =>
    let indexByHash :=
      match sess.peer with
      | some peer => if m.indexByHash.lookup peer = some link then m.indexByHash.erase peer else m.indexByHash
      | none => m.indexByHash
    let closed := { m with sessions := m.sessions.erase link, rate := m.rate.erase link, indexByHash }
    ((sess.peer, sess.nick, sess.rooms.length), closed.updateNickIndex link u sess.nick none)

inductive LinkEvent
  | established (link : Link) (now : Float) (msgsPerMinute : Int)
  | identified (link : Link) (peerHash : Option Bytes)
  | setPeer (link : Link) (peerHash : Bytes)
  | closed (link : Link)

def onLinkEvent (isBanned : Bytes → Bool) (m : SessionManager) : LinkEvent → Option SessionManager
  | .established link now msgsPerMinute => some (m.onLinkEstablished link now msgsPerMinute)
  | .identified link peerHash => some (m.onRemoteIdentified link isBanned peerHash).2
  | .setPeer link peerHash => some (m.setPeer link peerHash)
  | .closed link => some (m.onLinkClosed link u).2

/-- `NewSessionManager`. -/
def new : SessionManager := { sessions := ∅, rate := ∅, indexByHash := ∅, indexByNick := ∅ }

end SessionManager
end Reticulum.Rrc
