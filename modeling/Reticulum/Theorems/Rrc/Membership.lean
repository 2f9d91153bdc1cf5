import Reticulum.Rrc.Presence
import Reticulum.Theorems.Rrc.Authenticity

/-! # Whether sessions and rooms agree on who is where -/

namespace Reticulum.Rrc

open Cbor Transitions List Option

namespace SessionManager

variable {m : SessionManager} {link l : Link} {room r : Bytes} {f : Session → Session}

theorem inRoom_update (h : ∀ s, (f s).rooms = s.rooms) : (m.update link f).inRoom l r = m.inRoom l r := by
  rw [inRoom, getSession_update]
  split_ifs
  · simp [inRoom, Option.any_map, h]
  · rfl

theorem inRoom_setNick {nick : Option Bytes} : (m.setNick link nick).inRoom l r = m.inRoom l r := inRoom_update fun _ => rfl

theorem inRoom_updateNickIndex {u : Text.Unicode} {old new : Option Bytes} :
    (m.updateNickIndex link u old new).inRoom l r = m.inRoom l r := by
  rw [inRoom, getSession_updateNickIndex, inRoom]

theorem inRoom_learnHelloIdentity {cfg : Config} {env : Map} :
    (m.learnHelloIdentity cfg link env).2.inRoom l r = m.inRoom l r := by
  unfold learnHelloIdentity
  split
  · exact inRoom_setNick
  · rfl

theorem inRoom_sendWelcome {u : Text.Unicode} {old new : Option Bytes} :
    (m.sendWelcome link u old new).inRoom l r = m.inRoom l r := by
  unfold sendWelcome
  split
  · rfl
  · rw [inRoom_update (f := fun sess => { sess with welcomed := true }) fun _ => rfl]
    split_ifs
    · rfl
    · exact inRoom_updateNickIndex

theorem inRoom_discardSessionRoom :
    (m.discardSessionRoom link room).inRoom l r = (m.inRoom l r && !decide (l = link ∧ r = room)) := by
  rw [inRoom, discardSessionRoom, getSession_update, inRoom]
  by_cases hl : l = link
  · cases m.getSession l <;> simp [hl, Bool.and_comm]
  · simp [hl]

end SessionManager

namespace RoomManager

variable {m : RoomManager} {link : Link} {room r : Bytes}

theorem rooms_dropUnregistered : (m.dropUnregistered room).rooms = m.rooms := by
  unfold dropUnregistered
  split_ifs <;> rfl

theorem getRoomMembers_discardMember : (m.discardMember room link).getRoomMembers r =
    if r = room then (m.getRoomMembers r).filter (· ≠ link) else m.getRoomMembers r := by
  unfold discardMember getRoomMembers
  by_cases hr : r = room
  · subst hr
    cases hlookup : m.rooms.lookup r <;> simp [hlookup]
  · split <;> simp [hr]

theorem getRoomMembers_removeMember : (m.removeMember room link).getRoomMembers r =
    if r = room then (m.getRoomMembers r).filter (· ≠ link) else m.getRoomMembers r := by
  rw [← getRoomMembers_discardMember]
  unfold removeMember discardMember getRoomMembers
  split
  · rfl
  · split_ifs with hempty
    · rw [rooms_dropUnregistered, hempty]
      by_cases hr : r = room
      · subst hr
        simp
      · simp [hr]
    · rfl

theorem getRoomMembers_addMember : (m.addMember room link).getRoomMembers r =
    if r = room ∧ link ∉ m.getRoomMembers r then m.getRoomMembers r ++ [link] else m.getRoomMembers r := by
  unfold addMember getRoomMembers
  by_cases hr : r = room
  · subst hr
    cases hlookup : m.rooms.lookup r with
    | none => simp
    | some links => by_cases hlink : link ∈ links <;> simp [hlink]
  · split <;> simp [hr]

theorem getRoomMembers_foldl_removeMember (rooms : List Bytes) :
    (rooms.foldl (fun m room => m.removeMember room link) m).getRoomMembers r =
      if r ∈ rooms then (m.getRoomMembers r).filter (· ≠ link) else m.getRoomMembers r := by
  induction rooms generalizing m with
  | nil => simp
  | cons room rooms ih =>
    rw [foldl_cons, ih, getRoomMembers_removeMember]
    by_cases hr : r = room <;> simp [hr]

end RoomManager

namespace Hub

open SessionManager RoomManager

variable {cfg : Config} {isBanned : Bytes → Bool} {hub hub' : Hub} {link : Link} {room : Bytes}

/-- The members of a room are the links that have it among their rooms, each of them once. -/
structure Consistent (hub : Hub) : Prop where
  mem_iff : ∀ l r, l ∈ hub.rooms.getRoomMembers r ↔ hub.sessions.inRoom l r = true
  nodup : ∀ r, (hub.rooms.getRoomMembers r).Nodup

theorem Consistent.frame (h : Consistent hub) (hsessions : ∀ l r, hub'.sessions.inRoom l r = hub.sessions.inRoom l r)
    (hrooms : hub'.rooms.rooms = hub.rooms.rooms) : Consistent hub' := by
  have hmembers : ∀ r, hub'.rooms.getRoomMembers r = hub.rooms.getRoomMembers r := fun r => by
    rw [getRoomMembers, hrooms, getRoomMembers]
  exact ⟨fun l r => by rw [hmembers, hsessions, h.mem_iff], fun r => by rw [hmembers]; exact h.nodup r⟩

section

variable (h : Consistent hub)
include h

/-- The link leaves the rooms that `left` holds of. -/
theorem Consistent.leave (left : Bytes → Prop) [DecidablePred left]
    (hsessions : ∀ l r, hub'.sessions.inRoom l r = (hub.sessions.inRoom l r && !decide (l = link ∧ left r)))
    (hrooms : ∀ r, hub'.rooms.getRoomMembers r =
      if left r then (hub.rooms.getRoomMembers r).filter (· ≠ link) else hub.rooms.getRoomMembers r) :
    Consistent hub' := by
  refine ⟨fun l r => ?_, fun r => ?_⟩
  · rw [hsessions, hrooms]
    split_ifs with hleft
    · simp [h.mem_iff, hleft]
    · simp [h.mem_iff, hleft]
  · rw [hrooms]
    split_ifs
    · exact (h.nodup r).filter _
    · exact h.nodup r

theorem Consistent.expel : Consistent (hub.expel link room) :=
  h.leave (· = room) (fun _ _ => inRoom_discardSessionRoom) fun _ => getRoomMembers_discardMember

theorem Consistent.handlePart : Consistent (hub.handlePart link room) := by
  refine h.leave (· = room) (fun _ _ => inRoom_discardSessionRoom) fun r => ?_
  unfold Hub.handlePart
  dsimp only
  rw [← getRoomMembers_removeMember]
  split_ifs with hempty hleft
  · rw [getRoomMembers_removeMember]
    by_cases hr : r = room <;> simp [hr, hempty]
  · rw [getRoomMembers, rooms_dropUnregistered, ← getRoomMembers, getRoomMembers_removeMember]
    by_cases hr : r = room <;> simp [hr, hleft]
  · rfl

theorem Consistent.join {rooms : RoomManager} {sess : Session}
    (hs : hub.sessions.getSession link = some sess) (hrooms : rooms.rooms = hub.rooms.rooms) :
    Consistent ⟨hub.sessions.addSessionRoom link room, rooms.addMember room link⟩ := by
  have hmembers : ∀ r, rooms.getRoomMembers r = hub.rooms.getRoomMembers r := fun r => by
    rw [getRoomMembers, hrooms, getRoomMembers]
  refine ⟨fun l r => ?_, fun r => ?_⟩
  · have hiff := h.mem_iff l r
    rw [getRoomMembers_addMember, hmembers, inRoom, addSessionRoom, getSession_update]
    by_cases hl : l = link
    · subst hl
      rw [inRoom, hs, any_some] at hiff
      by_cases hr : r = room
      · subst hr
        by_cases hmem : r ∈ sess.rooms <;> simp [hs, hiff, hmem]
      · by_cases hmem : room ∈ sess.rooms <;> simp [hs, hiff, hr, hmem]
    · rw [inRoom] at hiff
      split_ifs <;> simp [hl, hiff]
  · rw [getRoomMembers_addMember, hmembers]
    split_ifs with hnew
    · exact nodup_append.mpr ⟨h.nodup r, nodup_singleton link, by
        rintro a ha b hb rfl
        exact hnew.2 (mem_singleton.mp hb ▸ ha)⟩
    · exact h.nodup r

theorem Consistent.handleJoin {peerHash : Bytes} {admitted : Bool}
    (hwelcomed : hub.sessions.isWelcomed link = true) : Consistent (hub.handleJoin link peerHash room admitted) := by
  cases hs : hub.sessions.getSession link with
  | none => simp [isWelcomed, hs] at hwelcomed
  | some sess =>
    unfold Hub.handleJoin
    dsimp only
    split_ifs
    · exact h.join hs (rooms_ensureRoomState.trans rooms_ensureRoomState)
    · exact h.join hs rooms_ensureRoomState
    · exact h.frame (fun _ _ => rfl) rooms_ensureRoomState

theorem Consistent.handleReHello {env : Map} (hwelcomed : hub.sessions.isWelcomed link = true) :
    Consistent (hub.handleReHello cfg link env) := by
  unfold Hub.handleReHello
  split_ifs
  · exact h
  · cases hs : hub.sessions.getSession link with
    | none => simp [isWelcomed, hs] at hwelcomed
    | some sess =>
      rw [beginReHello, hs]
      refine h.leave (· ∈ sess.rooms) (fun l r => ?_) fun _ => getRoomMembers_foldl_removeMember _
      rw [inRoom_sendWelcome, inRoom_learnHelloIdentity, inRoom, getSession_update]
      by_cases hl : l = link
      · simp [hl, hs, inRoom]
      · simp [hl, inRoom]

theorem Consistent.onClose : Consistent (hub.onClose cfg link) := by
  unfold Hub.onClose
  cases hs : hub.sessions.getSession link with
  | none =>
    rw [onLinkClosed, hs]
    exact h.frame (fun _ _ => rfl) rfl
  | some sess =>
    refine h.leave (· ∈ sess.rooms) (fun l r => ?_) fun _ => getRoomMembers_foldl_removeMember _
    rw [onLinkClosed, hs]
    rw [inRoom_updateNickIndex]
    by_cases hl : l = link
    · subst hl
      rw [inRoom, getSession, AList.lookup_erase, inRoom, hs]
      simp
    · simp [hl, inRoom, getSession]

end

/-- A message to the room, from a welcomed link that the rate limit and the gates of the room let pass. -/
def Passes (cfg : Config) (hub : Hub) (link : Link) (now : Float) (remote : Option Bytes) (data room : Bytes) : Prop :=
  ∃ peerHash sessions env t named, admission cfg hub link now remote = some (peerHash, true, sessions) ∧
    decodeEnvelope data = .ok env ∧ (env.get kT).bind intValue = some t ∧
    dispatch (sessions.isWelcomed link) (some t) = some .message ∧ slashCommand cfg env t = none ∧
    ¬(t == tNotice && !isNil (env.get kDst)) = true ∧ addressedRoom cfg env t = .ok named ∧
    normRoom cfg named = .ok room ∧ (roomGate { hub with sessions } link room peerHash).1 = none

end Hub
end Reticulum.Rrc
