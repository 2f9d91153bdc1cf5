import Reticulum.Theorems.Lxmf.MessageStore

/-! # Messages of one identity -/

namespace Reticulum.Lxmf

open Msgpack (Value)
open Transitions

/-! ### Orders by several keys -/

section

variable {α κ : Type} [LinearOrder κ] {before rest : α → α → Bool} {key : α → κ}

structure StrictWeak (before : α → α → Bool) : Prop where
  total : ∀ a b, before a b = false ∨ before b a = false
  trans : ∀ {a b c}, before b a = false → before c b = false → before c a = false

def byKey (key : α → κ) (rest : α → α → Bool) (a b : α) : Bool := if key a ≠ key b then key a < key b else rest a b

theorem byKey_eq_false {a b : α} : byKey key rest b a = false ↔ key a < key b ∨ key a = key b ∧ rest b a = false := by
  rw [byKey]
  split_ifs with h
  · rw [decide_eq_false_iff_not, not_lt]
    exact ⟨fun hle => .inl (lt_of_le_of_ne hle h.symm), fun hor => (hor.resolve_right fun heq => h heq.1.symm).le⟩
  · have heq : key a = key b := (not_not.mp h).symm
    exact ⟨fun hrest => .inr ⟨heq, hrest⟩, fun hor => (hor.resolve_left fun hlt => hlt.ne heq).2⟩

theorem StrictWeak.byKey (h : StrictWeak rest) (key : α → κ) : StrictWeak (byKey key rest) where
  total a b := by
    rw [byKey_eq_false, byKey_eq_false]
    rcases lt_trichotomy (key a) (key b) with hlt | heq | hgt
    · exact .inr (.inl hlt)
    · exact (h.total a b).imp (fun hrest => .inr ⟨heq.symm, hrest⟩) fun hrest => .inr ⟨heq, hrest⟩
    · exact .inl (.inl hgt)
  trans {a b c} hab hbc := by
    rw [byKey_eq_false] at hab hbc ⊢
    rcases hab with hab | ⟨hab, hrab⟩
    · rcases hbc with hbc | ⟨hbc, -⟩
      · exact .inl (hab.trans hbc)
      · exact .inl (hbc ▸ hab)
    · rcases hbc with hbc | ⟨hbc, hrbc⟩
      · exact .inl (hab ▸ hbc)
      · exact .inr ⟨hab.trans hbc, h.trans hrab hrbc⟩

theorem byKey_antisymm {a b : α} (hab : byKey key rest a b = false) (hba : byKey key rest b a = false) :
    key a = key b ∧ rest a b = false ∧ rest b a = false := by
  rw [byKey_eq_false] at hab hba
  rcases hab with hlt | ⟨heq, hrest⟩
  · rcases hba with hgt | ⟨heq, -⟩
    · exact absurd hgt hlt.asymm
    · exact absurd heq hlt.ne'
  · rcases hba with hgt | ⟨-, hrest'⟩
    · exact absurd heq hgt.ne'
    · exact ⟨heq.symm, hrest, hrest'⟩

theorem mergeSort_eq_of_perm (h : StrictWeak before) (hanti : ∀ {a b}, before a b = false → before b a = false → a = b)
    {as bs : List α} (hperm : as.Perm bs) :
    (as.mergeSort fun a b => !before b a) = bs.mergeSort fun a b => !before b a := by
  have hsorted : ∀ l : List α, (l.mergeSort fun a b => !before b a).Pairwise fun a b => (!before b a) = true := by
    refine List.pairwise_mergeSort (fun a b c hab hbc => ?_) fun a b => ?_
    · rw [Bool.not_eq_true'] at hab hbc ⊢
      exact h.trans hab hbc
    · rw [Bool.or_eq_true, Bool.not_eq_true', Bool.not_eq_true']
      exact (h.total a b).symm
  refine List.Perm.eq_of_pairwise (fun a b _ _ hab hba => ?_) (hsorted as) (hsorted bs) ?_
  · rw [Bool.not_eq_true'] at hab hba
    exact hanti hba hab
  · exact (List.mergeSort_perm as _).trans (hperm.trans (List.mergeSort_perm bs _).symm)

end

theorem AvailableEntry.before_eq : before = byKey size (byKey order (byKey receivedAt
    fun a b => decide (a.transientID < b.transientID))) := rfl

theorem AvailableEntry.strictWeak : StrictWeak before := by
  have hids : StrictWeak fun a b : AvailableEntry => decide (a.transientID < b.transientID) := by
    refine ⟨fun a b => ?_, fun {a b c} hab hbc => ?_⟩
    · simp only [decide_eq_false_iff_not, List.not_lt]
      exact (List.le_total a.transientID b.transientID).symm
    · simp only [decide_eq_false_iff_not, List.not_lt] at hab hbc ⊢
      exact List.le_trans hab hbc
  exact ((hids.byKey receivedAt).byKey order).byKey size

theorem AvailableEntry.before_antisymm {a b : AvailableEntry} (hab : before a b = false) (hba : before b a = false) :
    a = b := by
  rw [before_eq] at hab hba
  obtain ⟨hsize, hab, hba⟩ := byKey_antisymm hab hba
  obtain ⟨horder, hab, hba⟩ := byKey_antisymm hab hba
  obtain ⟨htime, hab, hba⟩ := byKey_antisymm hab hba
  simp only [decide_eq_false_iff_not, List.not_lt] at hab hba
  have hid : a.transientID = b.transientID := List.le_antisymm hba hab
  cases a
  cases b
  simp_all

/-! ### Agreement on the messages of a destination -/

section

variable {files files' : Table Bytes} {e : StoreEntry}

def SameFile (files files' : Table Bytes) (e : StoreEntry) : Prop :=
  ∀ name, e.path = some name → files.lookup name = files'.lookup name

theorem listSize_congr (h : SameFile files files' e) : e.listSize files = e.listSize files' := by
  rw [StoreEntry.listSize, StoreEntry.listSize]
  cases hpath : e.path with
  | none => rfl
  | some name =>
    dsimp only
    rw [h name hpath]

theorem messageSize_congr (h : SameFile files files' e) : e.messageSize files = e.messageSize files' := by
  rw [StoreEntry.messageSize, StoreEntry.messageSize]
  cases hpath : e.path with
  | none => rfl
  | some name =>
    dsimp only [Option.bind_some]
    rw [h name hpath]

theorem responsePayload_congr (h : SameFile files files' e) : e.responsePayload files = e.responsePayload files' := by
  rw [StoreEntry.responsePayload, StoreEntry.responsePayload]
  cases hpath : e.path with
  | none => rfl
  | some name =>
    dsimp only
    rw [h name hpath]

end

namespace PropagationNode

variable {L : LimitText} {h id : Bytes} {n n' : PropagationNode}

structure SameMessages (h : Bytes) (n n' : PropagationNode) : Prop where
  entry : ∀ id, n.ownEntry h id = n'.ownEntry h id
  file : ∀ id e, n.ownEntry h id = some e → SameFile n.files n'.files e

structure SameAccess (n n' : PropagationNode) : Prop where
  authRequired : n.authRequired = n'.authRequired
  allowedList : n.allowedList = n'.allowedList

theorem ownEntry_remove (h id id' : Bytes) :
    (n.removePropagationEntry id).ownEntry h id' = if id' = id then none else n.ownEntry h id' := by
  rw [ownEntry, lookup_removePropagationEntry]
  split_ifs
  · rfl
  · rfl

theorem SameMessages.remove (hs : SameMessages h n n') (hn : n.Sound) (hn' : n'.Sound) (id : Bytes) :
    SameMessages h (n.removePropagationEntry id) (n'.removePropagationEntry id) where
  entry id' := by rw [ownEntry_remove, ownEntry_remove, hs.entry]
  file id' e hown name hpath := by
    rw [ownEntry_remove] at hown
    split_ifs at hown with hne
    have hname : fileID name = some id' := hn id' e name (ownEntry_eq_some.mp hown).1 hpath
    rw [(touches_removePropagationEntry hn id).file name id' hname hne,
      (touches_removePropagationEntry hn' id).file name id' hname hne]
    exact hs.file id' e hown name hpath

theorem SameMessages.deleteHaves : ∀ (haves : List Value) {n n' : PropagationNode}, n.Sound → n'.Sound →
    SameMessages h n n' → (n.deleteHaves h haves).1 = (n'.deleteHaves h haves).1 ∧
      SameMessages h (n.deleteHaves h haves).2 (n'.deleteHaves h haves).2 := by
  intro haves
  induction haves with
  | nil => exact fun _ _ hs => ⟨rfl, hs⟩
  | cons value haves ih =>
    intro n n' hn hn' hs
    rw [PropagationNode.deleteHaves, PropagationNode.deleteHaves]
    split
    · exact ⟨rfl, hs⟩
    · exact ih hn hn' hs
    · rename_i id _
      rw [← hs.entry id]
      cases n.ownEntry h id with
      | none => exact ih hn hn' hs
      | some e =>
        exact ih (sound_removePropagationEntry hn id) (sound_removePropagationEntry hn' id) (hs.remove hn hn' id)

theorem SameMessages.collectWants (hs : SameMessages h n n') (limit : Option Int) : ∀ (wants : List Value) (size : Nat),
    n.collectWants h limit size wants = n'.collectWants h limit size wants := by
  intro wants
  induction wants with
  | nil => exact fun _ => rfl
  | cons value wants ih =>
    intro size
    rw [PropagationNode.collectWants, PropagationNode.collectWants]
    split
    · rfl
    · exact ih size
    · rename_i id _
      rw [← hs.entry id]
      cases hown : n.ownEntry h id with
      | none => exact ih size
      | some e =>
        have hfile := hs.file id e hown
        dsimp only
        rw [messageSize_congr hfile, responsePayload_congr hfile, ih, ih]

theorem SameMessages.getMessages (hn : n.Sound) (hn' : n'.Sound) (hs : SameMessages h n n') (limit : Option Int)
    (wants haves : List Value) : (n.getMessages h limit wants haves).1 = (n'.getMessages h limit wants haves).1 ∧
      SameMessages h (n.getMessages h limit wants haves).2 (n'.getMessages h limit wants haves).2 := by
  obtain ⟨hresult, hs₁⟩ := hs.deleteHaves haves hn hn'
  rw [PropagationNode.getMessages, PropagationNode.getMessages]
  generalize n.deleteHaves h haves = r at hresult hs₁
  generalize n'.deleteHaves h haves = r' at hresult hs₁
  obtain ⟨success, n₁⟩ := r
  obtain ⟨success', n₁'⟩ := r'
  obtain rfl : success = success' := hresult
  cases success with
  | false => exact ⟨rfl, hs₁⟩
  | true =>
    have hwants := hs₁.collectWants limit wants 24
    dsimp only
    rw [hwants]
    cases n₁'.collectWants h limit 24 wants with
    | none => exact ⟨rfl, hs₁⟩
    | some response => exact ⟨rfl, ⟨hs₁.entry, hs₁.file⟩⟩

/-! ### The list of messages -/

theorem mem_ownEntries {e : StoreEntry} : (id, e) ∈ n.ownEntries h ↔ n.ownEntry h id = some e := by
  rw [ownEntry_eq_some, ownEntries, List.mem_filter, decide_eq_true_eq, ← Option.mem_def, AList.mem_lookup_iff]
  simp

theorem nodup_ownEntries (n : PropagationNode) (h : Bytes) : (n.ownEntries h).Nodup := by
  refine List.Nodup.filter _ (List.Nodup.map ?_ n.propagationEntries.nodupKeys.nodup)
  rintro ⟨id, e⟩ ⟨id', e'⟩ heq
  obtain ⟨rfl, rfl⟩ := Prod.mk.inj heq
  rfl

theorem SameMessages.ownEntries (hs : SameMessages h n n') : (n.ownEntries h).Perm (n'.ownEntries h) := by
  rw [List.perm_ext_iff_of_nodup (nodup_ownEntries n h) (nodup_ownEntries n' h)]
  rintro ⟨id, e⟩
  rw [mem_ownEntries, mem_ownEntries, hs.entry]

theorem SameMessages.availableEntry (hs : SameMessages h n n') {e : Bytes × StoreEntry} (he : e ∈ n.ownEntries h) :
    n.availableEntry e = n'.availableEntry e := by
  obtain ⟨id, e⟩ := e
  rw [PropagationNode.availableEntry, PropagationNode.availableEntry,
    listSize_congr (hs.file id e (mem_ownEntries.mp he))]

theorem SameMessages.listMessages (hs : SameMessages h n n') (visit visit' : EntryVisit) :
    n.listMessages visit h = n'.listMessages visit' h := by
  have hperm : (visit.order (n.ownEntries h)).Perm (visit'.order (n'.ownEntries h)) :=
    (visit.perm _).trans (hs.ownEntries.trans (visit'.perm _).symm)
  have hsame : ∀ e ∈ visit.order (n.ownEntries h), n.availableEntry e = n'.availableEntry e :=
    fun e he => hs.availableEntry ((visit.perm _).mem_iff.mp he)
  have hall : ((visit.order (n.ownEntries h)).all fun e => (n.availableEntry e).isSome) =
      (visit'.order (n'.ownEntries h)).all fun e => (n'.availableEntry e).isSome := by
    rw [← hperm.all_eq, Bool.eq_iff_iff, List.all_eq_true, List.all_eq_true]
    exact forall₂_congr fun e he => by rw [hsame e he]
  have hsorted : ((visit.order (n.ownEntries h)).filterMap n.availableEntry).Perm
      ((visit'.order (n'.ownEntries h)).filterMap n'.availableEntry) := by
    rw [List.filterMap_congr hsame]
    exact hperm.filterMap _
  rw [PropagationNode.listMessages, PropagationNode.listMessages, hall,
    mergeSort_eq_of_perm AvailableEntry.strictWeak AvailableEntry.before_antisymm hsorted]

/-- Storing a message for somebody else leaves the messages of the identity alone. -/
theorem SameMessages.store {T : TimeText} (hn : n.Sound) (a : Acceptance) (hother : a.destinationHash ≠ h)
    (hfresh : n.ownEntry h a.transientID = none) : SameMessages h n (n.storePropagationMessageStamped T a) where
  entry id := by
    by_cases hid : id = a.transientID
    · rw [hid, hfresh, ownEntry]
      simp [storePropagationMessageStamped, Option.filter, hother]
    · exact congrArg _ ((touches_store n T a).entry id hid).symm
  file id e hown name hname := by
    have hid : id ≠ a.transientID := by
      rintro rfl
      cases hfresh.symm.trans hown
    obtain ⟨hlookup, -⟩ := Option.filter_eq_some_iff.mp hown
    exact ((touches_store n T a).file name id (hn id e name hlookup hname) hid).symm

/-! ### Requests -/

theorem SameMessages.answerRequest (hn : n.Sound) (hn' : n'.Sound) (hs : SameMessages h n n') (visit visit' : EntryVisit)
    (request : List Value) : (n.answerRequest L visit h request).1 = (n'.answerRequest L visit' h request).1 ∧
      SameMessages h (n.answerRequest L visit h request).2 (n'.answerRequest L visit' h request).2 := by
  rw [answerRequest.eq_def, answerRequest.eq_def]
  split
  · split
    · split
      · exact ⟨hs.listMessages visit visit', hs⟩
      · exact hs.getMessages hn hn' _ _ _
    · exact ⟨rfl, hs⟩
  · exact ⟨rfl, hs⟩

theorem SameMessages.messageGetRequest {identityHash : Bytes} (hn : n.Sound) (hn' : n'.Sound)
    (hs : SameMessages (deliveryHash identityHash) n n') (haccess : SameAccess n n') (visit visit' : EntryVisit)
    (data : Bytes) : (n.messageGetRequest L visit (some identityHash) data).1 =
        (n'.messageGetRequest L visit' (some identityHash) data).1 ∧
      SameMessages (deliveryHash identityHash) (n.messageGetRequest L visit (some identityHash) data).2
        (n'.messageGetRequest L visit' (some identityHash) data).2 := by
  rw [PropagationNode.messageGetRequest, PropagationNode.messageGetRequest, haccess.authRequired, haccess.allowedList]
  split_ifs
  · exact ⟨rfl, hs⟩
  · split
    · exact ⟨rfl, hs⟩
    · split
      · exact ⟨rfl, hs⟩
      · exact hs.answerRequest hn hn' visit visit' _

/-- Nodes alike for an identity answer it alike and go on so. A message for somebody else stays as it is. -/
theorem mailbox_isolated (T : TimeText) (L : LimitText) {n n' : PropagationNode} (hn : Reachable (step T L) {} n)
    (hn' : Reachable (step T L) {} n') (visit visit' : EntryVisit) (identityHash data : Bytes)
    (hs : SameMessages (deliveryHash identityHash) n n') (haccess : SameAccess n n') :
    (n.messageGetRequest L visit (some identityHash) data).1 =
        (n'.messageGetRequest L visit' (some identityHash) data).1 ∧
      SameMessages (deliveryHash identityHash) (n.messageGetRequest L visit (some identityHash) data).2
        (n'.messageGetRequest L visit' (some identityHash) data).2 ∧
      ∀ id, n.ownEntry (deliveryHash identityHash) id = none →
        (n.messageGetRequest L visit (some identityHash) data).2.propagationEntries.lookup id =
          n.propagationEntries.lookup id ∧
        ∀ e ∈ n.propagationEntries.lookup id,
          SameFile n.files (n.messageGetRequest L visit (some identityHash) data).2.files e := by
  have hsound := sound_reachable hn
  obtain ⟨hresponse, hafter⟩ := hs.messageGetRequest hsound (sound_reachable hn') haccess visit visit' data
  refine ⟨hresponse, hafter, fun id hother => ?_⟩
  have htouches := (messageGetRequest_spec (L := L) hsound visit identityHash data).1
  have hnot : ¬((∃ e, n.ownEntry (deliveryHash identityHash) id = some e) ∧ Value.bin id ∈ requestedHaves data) := by
    rw [hother]
    rintro ⟨⟨e, he⟩, -⟩
    cases he
  refine ⟨htouches.entry id hnot, fun e he name hpath => ?_⟩
  exact (htouches.file name id (hsound id e name he hpath) hnot).symm

namespace Sample

def foreign : Acceptance where
  receivedAt := 1700000000000000000
  lxmfData := List.replicate 20 9
  length_lxmfData := by decide
  stamp := Acceptance.stamp_absent

def listRequest : Bytes := [0x92, 0xc0, 0xc0]

/-- The message of somebody else makes no difference to the list. -/
theorem foreign_isolated : ∃ n n', run (step timeText limitText) {} [.store unstamped] = some n ∧
    run (step timeText limitText) {} [.store unstamped, .store foreign] = some n' ∧
    (n.ownEntry (deliveryHash identityHash) unstamped.transientID).isSome = true ∧
    (n'.propagationEntries.lookup foreign.transientID).isSome = true ∧
    (n.messageGetRequest limitText visit (some identityHash) listRequest).1 =
      (n'.messageGetRequest limitText visit (some identityHash) listRequest).1 := by
  let n := storePropagationMessageStamped {} timeText unstamped
  have hn : Reachable (step timeText limitText) {} n := ⟨[.store unstamped], rfl⟩
  have hsame : SameMessages (deliveryHash identityHash) n (n.storePropagationMessageStamped timeText foreign) :=
    .store (sound_reachable hn) foreign (by decide +kernel) (by decide +kernel)
  refine ⟨n, n.storePropagationMessageStamped timeText foreign, rfl, rfl, by decide +kernel, by decide +kernel, ?_⟩
  exact (mailbox_isolated timeText limitText hn ⟨[.store unstamped, .store foreign], rfl⟩ visit visit identityHash
    listRequest hsame ⟨by decide +kernel, by decide +kernel⟩).1

/-- Without a message for the identity, the answer still depends on whether it has access. -/
theorem access_matters : SameMessages (deliveryHash identityHash) {} { authRequired := true } ∧
      (messageGetRequest {} limitText visit (some identityHash) listRequest).1 = .items [] ∧
      (messageGetRequest { authRequired := true } limitText visit (some identityHash) listRequest).1 =
        .error peerErrorNoAccess := by
  refine ⟨⟨fun _ => rfl, fun _ _ _ _ _ => rfl⟩, ?_, ?_⟩
  · decide +kernel
  · decide +kernel

end Sample

end PropagationNode
end Reticulum.Lxmf
