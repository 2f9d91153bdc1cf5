import Reticulum.Rrc.Session
import Reticulum.Transitions

/-! # Whether a connected peer is found by its hash

The index holds one link for each hash. -/

namespace Reticulum.Rrc.SessionManager

open Transitions Option

variable {m m' : SessionManager} {link l : Link} {h p : Bytes} {u : Text.Unicode} {isBanned : Bytes → Bool}

/-- The index finds a live link of the peer, and only then. -/
structure Addressable (m : SessionManager) : Prop where
  sound : ∀ h link, m.getLinkByHash h = some link → m.peerOf link = some h
  complete : ∀ link h, m.peerOf link = some h → m.getLinkByHash h ≠ none

theorem addressable_iff : Addressable m ↔
    ∀ h, ((∃ link, m.peerOf link = some h) → ∃ link, m.getLinkByHash h = some link ∧ m.peerOf link = some h) ∧
      ((¬∃ link, m.peerOf link = some h) → m.getLinkByHash h = none) := by
  constructor
  · intro hm h
    refine ⟨fun ⟨link, hlink⟩ => ?_, fun hnone => ?_⟩
    · obtain ⟨found, hfound⟩ := ne_none_iff_exists'.mp (hm.complete link h hlink)
      exact ⟨found, hfound, hm.sound h found hfound⟩
    · by_contra hsome
      obtain ⟨found, hfound⟩ := ne_none_iff_exists'.mp hsome
      exact hnone ⟨found, hm.sound h found hfound⟩
  · intro hall
    refine ⟨fun h link hlink => ?_, fun link h hlink hnone => ?_⟩
    · by_cases hlive : ∃ link, m.peerOf link = some h
      · obtain ⟨found, hfound, hpeer⟩ := (hall h).1 hlive
        exact some.inj (hlink.symm.trans hfound) ▸ hpeer
      · rw [(hall h).2 hlive] at hlink
        cases hlink
    · obtain ⟨found, hfound, -⟩ := (hall h).1 ⟨link, hlink⟩
      rw [hnone] at hfound
      cases hfound

def Repeers (m : SessionManager) (link : Link) (peer : Option Bytes) (m' : SessionManager) : Prop :=
  m'.peerOf link = peer ∧ ∀ l ≠ link, m'.peerOf l = m.peerOf l

/-- A link that loses its peer leaves the peers of the others. -/
theorem Repeers.known (h : Repeers m link none m') (hl : m'.peerOf l = some p) : m.peerOf l = some p := by
  by_cases hlink : l = link
  · subst hlink
    cases h.1.symm.trans hl
  · exact (h.2 l hlink).symm.trans hl

theorem repeers_insert (sess : Session) (hm : m'.sessions = m.sessions.insert link sess) : Repeers m link sess.peer m' := by
  refine ⟨?_, fun l hl => ?_⟩
  · rw [peerOf, getSession, hm, AList.lookup_insert, bind_some]
  · rw [peerOf, getSession, hm, AList.lookup_insert_ne hl, peerOf, getSession]

theorem repeers_setPeer {sess : Session} (hs : m.getSession link = some sess) : Repeers m link (some h) (m.setPeer link h) := by
  refine repeers_insert { sess with peer := some h } ?_
  rw [setPeer, update, hs]

theorem repeers_erase (hm : m'.sessions = m.sessions.erase link) : Repeers m link none m' := by
  refine ⟨?_, fun l hl => ?_⟩
  · rw [peerOf, getSession, hm, AList.lookup_erase, bind_none]
  · rw [peerOf, getSession, hm, AList.lookup_erase_ne hl, peerOf, getSession]

section

variable (m : SessionManager)

theorem updateNickIndex_frame (link : Link) (u : Text.Unicode) (old new : Option Bytes) :
    (m.updateNickIndex link u old new).sessions = m.sessions ∧
      (m.updateNickIndex link u old new).indexByHash = m.indexByHash := by
  have hunindexed : (m.updateNickIndex link u old none).sessions = m.sessions ∧
      (m.updateNickIndex link u old none).indexByHash = m.indexByHash := by
    unfold updateNickIndex unindexNick
    dsimp only
    repeat' split
    all_goals exact ⟨rfl, rfl⟩
  cases new with
  | none => exact hunindexed
  | some nick =>
    unfold updateNickIndex at hunindexed ⊢
    dsimp only at hunindexed ⊢
    split_ifs <;> exact hunindexed

@[simp] theorem getSession_update (link : Link) (f : Session → Session) (l : Link) :
    (m.update link f).getSession l = if l = link then (m.getSession l).map f else m.getSession l := by
  unfold update
  by_cases hl : l = link
  · subst hl
    rw [if_pos rfl]
    cases hs : m.getSession l with
    | none => exact hs
    | some sess => exact AList.lookup_insert _
  · rw [if_neg hl]
    split
    · exact AList.lookup_insert_ne hl
    · rfl

@[simp] theorem getSession_updateNickIndex (link : Link) (u : Text.Unicode) (old new : Option Bytes)
    (l : Link) : (m.updateNickIndex link u old new).getSession l = m.getSession l := by
  rw [getSession, (updateNickIndex_frame m link u old new).1, getSession]

def Unlisted (link : Link) (h : Option Bytes) : Prop :=
  ∀ p, m.peerOf link = some p → some p ≠ h → m.getLinkByHash p ≠ some link

def KeepsIndex : LinkEvent → Prop
  | .established link _ _ => m.Unlisted link none
  | .identified link peerHash => ∀ h, m.getSession link ≠ none → peerHash = some h → m.Unlisted link (some h)
  | .setPeer link h => m.getSession link ≠ none → m.getLinkByHash h ≠ none ∧ m.Unlisted link (some h)
  | .closed link => ∀ p, m.getLinkByHash p = some link → ∀ l ≠ link, m.peerOf l ≠ some p

end

section

variable (hm : Addressable m)
include hm

theorem Addressable.unlisted_iff {peer : Option Bytes} :
    m.Unlisted link peer ↔ ∀ p, m.getLinkByHash p = some link → some p = peer := by
  constructor
  · intro hunlisted p hp
    by_contra hne
    exact hunlisted p (hm.sound p link hp) hne hp
  · exact fun hall p _ hne hp => hne (hall p hp)

theorem Addressable.repeer_iff {peer : Option Bytes} (hpeer : Repeers m link peer m')
    (hindex : m'.indexByHash = m.indexByHash) :
    Addressable m' ↔ (∀ h, peer = some h → m.getLinkByHash h ≠ none) ∧ m.Unlisted link peer := by
  have hget : ∀ h, m'.getLinkByHash h = m.getLinkByHash h := fun h => by rw [getLinkByHash, hindex, getLinkByHash]
  rw [hm.unlisted_iff]
  constructor
  · refine fun hm' => ⟨fun h hh => hget h ▸ hm'.complete link h (hpeer.1.trans hh), fun p hp => ?_⟩
    exact (hm'.sound p link (hget p ▸ hp)).symm.trans hpeer.1
  · rintro ⟨hfound, hunlisted⟩
    refine ⟨fun h l hl => ?_, fun l h hl => ?_⟩
    · rw [hget] at hl
      by_cases hlink : l = link
      · subst hlink
        exact hpeer.1.trans (hunlisted h hl).symm
      · exact (hpeer.2 l hlink).trans (hm.sound h l hl)
    · rw [hget]
      by_cases hlink : l = link
      · subst hlink
        exact hfound h (hpeer.1.symm.trans hl)
      · exact hm.complete l h ((hpeer.2 l hlink).symm.trans hl)

theorem Addressable.identified_iff {sess : Session} (hs : m.getSession link = some sess) :
    Addressable { m.setPeer link h with indexByHash := m.indexByHash.insert h link } ↔ m.Unlisted link (some h) := by
  have hpeer := repeers_setPeer (h := h) hs
  have hself : AList.lookup h (m.indexByHash.insert h link) = some link := AList.lookup_insert _
  have hother : ∀ p ≠ h, AList.lookup p (m.indexByHash.insert h link) = m.getLinkByHash p :=
    fun p hp => AList.lookup_insert_ne hp
  rw [hm.unlisted_iff]
  constructor
  · intro hm' p hp
    by_cases hph : p = h
    · rw [hph]
    · exact (hm'.sound p link ((hother p hph).trans hp)).symm.trans hpeer.1
  · refine fun hunlisted => ⟨fun p l hl => ?_, fun l p hl => ?_⟩
    · by_cases hph : p = h
      · subst hph
        obtain rfl := some.inj (hself.symm.trans hl)
        exact hpeer.1
      · have hlisted : m.getLinkByHash p = some l := (hother p hph).symm.trans hl
        have hne : l ≠ link := by
          rintro rfl
          exact hph (some.inj (hunlisted p hlisted))
        exact (hpeer.2 l hne).trans (hm.sound p l hlisted)
    · by_cases hph : p = h
      · subst hph
        exact ne_of_eq_of_ne hself (some_ne_none link)
      · have hne : l ≠ link := by
          rintro rfl
          exact hph (some.inj (hl.symm.trans hpeer.1))
        exact ne_of_eq_of_ne (hother p hph) (hm.complete l p ((hpeer.2 l hne).symm.trans hl))

omit hm in
theorem onLinkClosed_cases (m : SessionManager) (link : Link) (u : Text.Unicode) :
    Repeers m link none (m.onLinkClosed link u).2 ∧
      ((∃ p, m.peerOf link = some p ∧ m.getLinkByHash p = some link ∧
          (m.onLinkClosed link u).2.indexByHash = m.indexByHash.erase p) ∨
        (∀ p, m.peerOf link = some p → m.getLinkByHash p ≠ some link) ∧
          (m.onLinkClosed link u).2.indexByHash = m.indexByHash) := by
  cases hs : m.getSession link with
  | none =>
    have hpeer : m.peerOf link = none := by rw [peerOf, hs, bind_none]
    rw [onLinkClosed, hs]
    exact ⟨⟨hpeer, fun _ _ => rfl⟩, .inr ⟨fun p hp => (some_ne_none p (hp.symm.trans hpeer)).elim, rfl⟩⟩
  | some sess =>
    have hpeer : m.peerOf link = sess.peer := by rw [peerOf, hs, bind_some]
    rw [onLinkClosed, hs, hpeer]
    rw [(updateNickIndex_frame _ link u sess.nick none).2]
    refine ⟨repeers_erase (updateNickIndex_frame _ link u sess.nick none).1, ?_⟩
    cases sess.peer with
    | none => exact .inr ⟨fun p hp => (some_ne_none p hp.symm).elim, rfl⟩
    | some p =>
      by_cases hp : m.indexByHash.lookup p = some link
      · exact .inl ⟨p, rfl, hp, if_pos hp⟩
      · refine .inr ⟨fun q hq => ?_, if_neg hp⟩
        cases hq
        exact hp

theorem Addressable.closed_iff :
    Addressable (m.onLinkClosed link u).2 ↔ ∀ p, m.getLinkByHash p = some link → ∀ l ≠ link, m.peerOf l ≠ some p := by
  obtain ⟨hpeer, ⟨p, hp, hlisted, hindex⟩ | ⟨hunlisted, hindex⟩⟩ := onLinkClosed_cases m link u
  · generalize (m.onLinkClosed link u).2 = m' at hpeer hindex
    have hself : m'.getLinkByHash p = none := by rw [getLinkByHash, hindex, AList.lookup_erase]
    have hother : ∀ q ≠ p, m'.getLinkByHash q = m.getLinkByHash q := fun q hq => by
      rw [getLinkByHash, hindex, AList.lookup_erase_ne hq, getLinkByHash]
    constructor
    · intro hm' q hq l hl hlq
      obtain rfl : q = p := some.inj ((hm.sound q link hq).symm.trans hp)
      exact hm'.complete l q ((hpeer.2 l hl).trans hlq) hself
    · refine fun halone => ⟨fun q l hl => ?_, fun l q hl => ?_⟩
      · by_cases hq : q = p
        · rw [hq, hself] at hl
          cases hl
        · rw [hother q hq] at hl
          have hne : l ≠ link := by
            rintro rfl
            exact hq (some.inj ((hm.sound q l hl).symm.trans hp))
          exact (hpeer.2 l hne).trans (hm.sound q l hl)
      · have hne : l ≠ link := by
          rintro rfl
          exact some_ne_none q (hl.symm.trans hpeer.1)
        have hl : m.peerOf l = some q := (hpeer.2 l hne).symm.trans hl
        have hq : q ≠ p := by
          rintro rfl
          exact halone q hlisted l hne hl
        exact hother q hq ▸ hm.complete l q hl
  · rw [hm.repeer_iff hpeer hindex]
    have hnever : ∀ p, m.getLinkByHash p ≠ some link := fun p hp => hunlisted p (hm.sound p link hp) hp
    exact iff_of_true ⟨nofun, fun p hp _ => hunlisted p hp⟩ fun p hp => absurd hp (hnever p)

theorem keepsIndex_iff (e : LinkEvent) :
    ∃ m', m.onLinkEvent u isBanned e = some m' ∧ (m.KeepsIndex e ↔ Addressable m') := by
  cases e with
  | established link now msgsPerMinute =>
    have hpeer : Repeers m link none (m.onLinkEstablished link now msgsPerMinute) :=
      repeers_insert { welcomed := false, rooms := [], peer := none, nick := none } rfl
    refine ⟨_, rfl, ?_⟩
    rw [hm.repeer_iff hpeer rfl]
    exact ⟨fun hu => ⟨fun h hh => (some_ne_none h hh.symm).elim, hu⟩, And.right⟩
  | identified link peerHash =>
    refine ⟨_, rfl, ?_⟩
    unfold onRemoteIdentified
    split
    · next sess h hs =>
      rw [hm.identified_iff hs]
      constructor
      · exact fun hkeeps => hkeeps h (hs ▸ some_ne_none sess) rfl
      · exact fun hu h' _ hh => some.inj hh ▸ hu
    · next hnone =>
      refine iff_of_true (fun h hsome hh => ?_) hm
      obtain ⟨sess, hs⟩ := ne_none_iff_exists'.mp hsome
      exact absurd hh (hnone sess h hs)
  | setPeer link h =>
    refine ⟨_, rfl, ?_⟩
    cases hs : m.getSession link with
    | none =>
      have hsame : m.setPeer link h = m := by rw [setPeer, update, hs]
      rw [hsame]
      exact iff_of_true (fun hsome => absurd hs hsome) hm
    | some sess =>
      have hindex : (m.setPeer link h).indexByHash = m.indexByHash := by rw [setPeer, update, hs]
      rw [hm.repeer_iff (repeers_setPeer hs) hindex]
      constructor
      · intro hkeeps
        obtain ⟨hfound, hu⟩ := hkeeps (hs ▸ some_ne_none sess)
        exact ⟨fun h' hh => some.inj hh ▸ hfound, hu⟩
      · exact fun hboth _ => ⟨hboth.1 h rfl, hboth.2⟩
  | closed link => exact ⟨_, rfl, hm.closed_iff.symm⟩

end

theorem addressable_new : Addressable new := ⟨nofun, nofun⟩

/-- Peers are found by their hashes throughout a run just when every event of it keeps the index right. -/
theorem found_by_hash_iff (u : Text.Unicode) (isBanned : Bytes → Bool) (events : List LinkEvent) :
    (∀ before after m, events = before ++ after → run (onLinkEvent u isBanned) new before = some m →
      ∀ h, ((∃ link, m.peerOf link = some h) → ∃ link, m.getLinkByHash h = some link ∧ m.peerOf link = some h) ∧
        ((¬∃ link, m.peerOf link = some h) → m.getLinkByHash h = none)) ↔
      Keeps (onLinkEvent u isBanned) KeepsIndex new events := by
  rw [keeps_iff_forall_states Addressable (fun m e hm => keepsIndex_iff hm e) events addressable_new]
  exact forall₅_congr fun before after m _ _ => addressable_iff.symm

/-- The peer has two links, and the one that was identified last is closed. -/
theorem other_link_not_found : ∃ m, run (onLinkEvent ⟨Char.toLower, Char.isAlpha, fun _ => false⟩ fun _ => false) new
        [.established 1 0 60, .established 2 0 60, .identified 1 (some [7]), .identified 2 (some [7]), .closed 2] = some m ∧
      m.peerOf 1 = some [7] ∧ m.getLinkByHash [7] = none :=
  ⟨_, rfl, rfl, rfl⟩

end Reticulum.Rrc.SessionManager
