import Reticulum.Lxmf.MessageGet
import Reticulum.Lxmf.Router

/-! # The files of a propagation node -/

namespace Reticulum.Lxmf

open Text (Str)
open Transitions List Option

variable {T : TimeText} {L : LimitText} {n n' : PropagationNode} {a : Acceptance} {id : Bytes} {name : Str}

/-! ### Names -/

def fileID (name : Str) : Option Bytes := (name.splitOn 95).head?.bind Text.hexDecode

theorem fileID_of_parse {t : Time} {v : Int} (h : parsePropagationStoreFilename T name = some (id, t, v)) :
    fileID name = some id := by
  rw [parsePropagationStoreFilename] at h
  rw [fileID]
  cases hsplit : name.splitOn 95 with
  | nil => simp [hsplit] at h
  | cons first rest =>
    rcases rest with _ | ⟨second, _ | ⟨third, rest⟩⟩
    · simp [hsplit] at h
    · simp [hsplit] at h
    · rw [hsplit] at h
      simp only [bind_eq_bind, bind_eq_some_iff] at h
      obtain ⟨id', hid, t', -, v', -, heq⟩ := h
      cases heq
      exact hid

def Acceptance.nameParts (a : Acceptance) (T : TimeText) : List Str :=
  [Text.hexEncode a.transientID, T.format a.receivedAt] ++
    if a.stampData ≠ [] ∧ a.stampValue = 0 then [] else [Text.formatInt a.stampValue]

theorem splitOn_filename (a : Acceptance) (T : TimeText) : (a.filename T).splitOn 95 = a.nameParts T := by
  have hname : a.filename T = [95].intercalate (a.nameParts T) := by
    have hzero : (a.stampValue : Int) ≤ 0 ↔ a.stampValue = 0 := by
      omega
    rw [Acceptance.filename, storeFilename, Acceptance.nameParts]
    simp only [hzero]
    split_ifs
    · rfl
    · rfl
  rw [hname]
  refine splitOn_intercalate 95 (fun part hpart => ?_) (cons_ne_nil _ _)
  simp only [Acceptance.nameParts, cons_append, nil_append, mem_cons] at hpart
  rcases hpart with rfl | rfl | hpart
  · exact Text.underscore_notMem_hexEncode _
  · exact T.format_digits _
  · split_ifs at hpart
    · cases hpart
    · obtain rfl := mem_singleton.mp hpart
      exact (Text.atoi_formatInt a.stampValue).2

theorem fileID_filename : fileID (a.filename T) = some a.transientID := by
  rw [fileID, splitOn_filename]
  exact Text.hexDecode_hexEncode _

/-- The name has three parts unless there is a stamp of no value. -/
def Acceptance.IsNamed (a : Acceptance) : Prop := a.stampData = [] ∨ a.stampValue ≠ 0

theorem parse_filename (h : a.IsNamed) : parsePropagationStoreFilename T (a.filename T) =
    (T.parse (T.format a.receivedAt)).map fun t => (a.transientID, t, (a.stampValue : Int)) := by
  have hparts : a.nameParts T =
      [Text.hexEncode a.transientID, T.format a.receivedAt, Text.formatInt a.stampValue] := by
    rw [Acceptance.nameParts, if_neg fun hboth => h.elim hboth.1 fun hvalue => hvalue hboth.2]
    rfl
  rw [parsePropagationStoreFilename, splitOn_filename, hparts]
  dsimp only
  rw [Text.hexDecode_hexEncode, (Text.atoi_formatInt a.stampValue).1]
  cases T.parse (T.format a.receivedAt) with
  | none | some t => rfl

theorem parse_filename_unnamed (h : ¬a.IsNamed) : parsePropagationStoreFilename T (a.filename T) = none := by
  have hboth : a.stampData ≠ [] ∧ a.stampValue = 0 := by
    rwa [Acceptance.IsNamed, not_or, not_not] at h
  rw [parsePropagationStoreFilename, splitOn_filename, Acceptance.nameParts, if_pos hboth]
  rfl

/-! ### The store of the router -/

def StoreFile.filename (T : TimeText) (f : StoreFile) : Str :=
  [95].intercalate (Text.hexEncode f.transientID :: T.format f.receivedAt :: f.stampValue.toList.map Text.formatInt)

/-- What an entry of the router has in common with one of the node. -/
def PropagationEntry.stored (T : TimeText) (e : PropagationEntry) :=
  (e.destinationHash, e.payload, e.receivedAt, e.order, e.file.map (·.filename T), e.size, e.stampValue)

def StoreEntry.stored (e : StoreEntry) :=
  (e.destinationHash, e.payload, e.receivedAt, (e.order : Nat), e.path, e.size, e.stampValue)

/-- The node and the router hold the same messages. -/
structure Mirrors (T : TimeText) (n : PropagationNode) (r : Router) : Prop where
  sequence : n.propagationEntrySeq = r.propagationEntrySeq
  entry : ∀ id, (n.propagationEntries.lookup id).map (·.stored) = (r.propagationEntries.lookup id).map (·.stored T)

namespace Mirrors
variable {r : Router} (h : Mirrors T n r)
include h

theorem order (id : Bytes) :
    r.nextPropagationEntryOrder id = ((n.nextPropagationEntryOrder id).1.val, (n.nextPropagationEntryOrder id).2) := by
  have hentry := h.entry id
  rw [PropagationNode.nextPropagationEntryOrder, Router.nextPropagationEntryOrder, ← h.sequence]
  cases hn : n.propagationEntries.lookup id with
  | none =>
    rw [hn] at hentry
    rw [map_eq_none_iff.mp hentry.symm]
    rfl
  | some e =>
    rw [hn] at hentry
    obtain ⟨e', he', heq⟩ := map_eq_some_iff.mp hentry.symm
    have horder : e'.order = e.order := congrArg (·.2.2.2.1) heq
    rw [he']
    dsimp only
    rw [horder, if_pos e.order.pos]

/-- The router and the node store a message alike. -/
theorem store (fromPeer : Option Bytes) (hnow : a.receivedAt = r.now) (hpersisted : a.persisted =
      (r.propagationEnabled && r.writable (Router.propagationMessageFile a.transientID r.now a.stampValue
        a.destinationHash a.lxmfData a.stampData))) :
    Mirrors T (n.storePropagationMessageStamped T a)
      (r.storePropagationMessageStamped a.destinationHash a.lxmfData a.stampData a.stampValue fromPeer).router := by
  have hfilename : (Router.propagationMessageFile a.transientID r.now a.stampValue a.destinationHash a.lxmfData
      a.stampData).filename T = a.filename T := by
    rw [StoreFile.filename, Acceptance.filename, storeFilename, Router.propagationMessageFile, hnow]
    split_ifs <;> rfl
  rw [Acceptance.transientID] at hpersisted hfilename
  rw [Router.storePropagationMessageStamped]
  simp only [h.order, Router.enqueuePeerDistribution, if_neg (fullHash_ne_nil _)]
  refine ⟨rfl, fun id => ?_⟩
  by_cases hid : id = a.transientID
  · subst hid
    refine (congrArg _ (AList.lookup_insert _)).trans (Eq.trans ?_ (congrArg _ (AList.lookup_insert _)).symm)
    simp only [Option.map_some, StoreEntry.stored, PropagationEntry.stored, ← hpersisted, ← hfilename, hnow]
    cases a.persisted <;> rfl
  · refine (congrArg _ (AList.lookup_insert_ne hid)).trans ((h.entry id).trans ?_)
    exact (congrArg _ (AList.lookup_insert_ne hid)).symm

end Mirrors

/-! ### What is left as it is -/

namespace PropagationNode

variable {ids : Bytes → Prop} {e : StoreEntry}

def NamesIDs (entries : Table StoreEntry) : Prop :=
  ∀ id e name, entries.lookup id = some e → e.path = some name → fileID name = some id

def Sound (n : PropagationNode) : Prop := NamesIDs n.propagationEntries

/-- Only entries of the IDs and their files change. -/
structure Touches (ids : Bytes → Prop) (n n' : PropagationNode) : Prop where
  entry : ∀ id, ¬ids id → n'.propagationEntries.lookup id = n.propagationEntries.lookup id
  file : ∀ name id, fileID name = some id → ¬ids id → n'.files.lookup name = n.files.lookup name

theorem Touches.refl (n : PropagationNode) : Touches ids n n := ⟨fun _ _ => rfl, fun _ _ _ _ => rfl⟩

theorem Touches.trans {n'' : PropagationNode} (h : Touches ids n n') (h' : Touches ids n' n'') : Touches ids n n'' where
  entry id hid := (h'.entry id hid).trans (h.entry id hid)
  file name id hname hid := (h'.file name id hname hid).trans (h.file name id hname hid)

theorem Touches.mono {ids' : Bytes → Prop} (h : Touches ids n n') (hids : ∀ id, ids id → ids' id) :
    Touches ids' n n' where
  entry id hid := h.entry id fun h => hid (hids id h)
  file name id hname hid := h.file name id hname fun h => hid (hids id h)

theorem lookup_removePropagationEntry (n : PropagationNode) (id id' : Bytes) :
    (n.removePropagationEntry id).propagationEntries.lookup id' =
      if id' = id then none else n.propagationEntries.lookup id' := by
  rw [removePropagationEntry]
  split_ifs with h
  · subst h
    cases hlookup : n.propagationEntries.lookup id' with
    | none => exact hlookup
    | some e => exact AList.lookup_erase _ _
  · cases n.propagationEntries.lookup id with
    | none => rfl
    | some e => exact AList.lookup_erase_ne h

theorem lookup_files_remove (n : PropagationNode) (id : Bytes) (name : Str) :
    (n.removePropagationEntry id).files.lookup name =
      if (n.propagationEntries.lookup id).bind (·.path) = some name then none else n.files.lookup name := by
  rw [removePropagationEntry]
  cases n.propagationEntries.lookup id with
  | none => rfl
  | some e =>
    dsimp only [bind_some]
    split
    · rename_i hpath
      simp [hpath]
    · rename_i path hpath
      split_ifs with heq
      · cases hpath.symm.trans heq
        exact AList.lookup_erase _ _
      · exact AList.lookup_erase_ne fun h => heq (h ▸ hpath)

theorem touches_removePropagationEntry (hn : n.Sound) (id : Bytes) :
    Touches (· = id) n (n.removePropagationEntry id) where
  entry id' hid := by rw [lookup_removePropagationEntry, if_neg hid]
  file name id' hname hid := by
    rw [lookup_files_remove, if_neg]
    intro hpath
    obtain ⟨e, hlookup, hpath⟩ := bind_eq_some_iff.mp hpath
    exact hid (some.inj (hname.symm.trans (hn id e name hlookup hpath)))

theorem sound_removePropagationEntry (hn : n.Sound) (id : Bytes) : (n.removePropagationEntry id).Sound := by
  intro id' e name hlookup hpath
  rw [lookup_removePropagationEntry] at hlookup
  split_ifs at hlookup
  exact hn id' e name hlookup hpath

theorem touches_foldl_remove (ids : List Bytes) : ∀ {n : PropagationNode}, n.Sound →
    Touches (· ∈ ids) n (ids.foldl removePropagationEntry n) ∧ (ids.foldl removePropagationEntry n).Sound := by
  induction ids with
  | nil => exact fun hn => ⟨.refl _, hn⟩
  | cons id ids ih =>
    intro n hn
    obtain ⟨htouches, hsound⟩ := ih (sound_removePropagationEntry hn id)
    have hfirst : Touches (· ∈ id :: ids) n (n.removePropagationEntry id) :=
      (touches_removePropagationEntry hn id).mono fun _ h => h ▸ mem_cons_self
    exact ⟨hfirst.trans (htouches.mono fun _ h => mem_cons_of_mem _ h), hsound⟩

theorem lookup_foldl_remove (ids : List Bytes) : ∀ n : PropagationNode,
    (ids.foldl removePropagationEntry n).propagationEntries.lookup id =
      if id ∈ ids then none else n.propagationEntries.lookup id := by
  induction ids with
  | nil => exact fun _ => rfl
  | cons id' ids ih =>
    intro n
    rw [foldl_cons, ih, lookup_removePropagationEntry]
    split_ifs <;> simp_all

theorem lookup_files_foldl_remove {data : Bytes} : ∀ (ids : List Bytes) {n : PropagationNode},
    (ids.foldl removePropagationEntry n).files.lookup name = some data → n.files.lookup name = some data ∧
      ∀ id ∈ ids, ∀ e, n.propagationEntries.lookup id = some e → e.path ≠ some name := by
  intro ids
  induction ids with
  | nil => exact fun h => ⟨h, fun _ hmem => absurd hmem not_mem_nil⟩
  | cons id ids ih =>
    intro n h
    obtain ⟨hfile, hpaths⟩ := ih h
    rw [lookup_files_remove] at hfile
    split_ifs at hfile with hpath
    have hfirst : ∀ e, n.propagationEntries.lookup id = some e → e.path ≠ some name :=
      fun e he hname => hpath (bind_eq_some_iff.mpr ⟨e, he, hname⟩)
    refine ⟨hfile, forall_mem_cons.mpr ⟨hfirst, fun id' hmem e he => ?_⟩⟩
    by_cases heq : id' = id
    · exact hfirst e (heq ▸ he)
    · exact hpaths id' hmem e (by rw [lookup_removePropagationEntry, if_neg heq, he])

theorem mem_staleIDs {now : Time} :
    id ∈ n.staleIDs T now ↔ ∃ e, n.propagationEntries.lookup id = some e ∧ isStale T now id e = true := by
  simp only [staleIDs, List.mem_map, List.mem_filter, ← Option.mem_def, AList.mem_lookup_iff]
  constructor
  · rintro ⟨⟨id', e⟩, ⟨hmem, hstale⟩, rfl⟩
    exact ⟨e, hmem, hstale⟩
  · rintro ⟨e, hmem, hstale⟩
    exact ⟨⟨id, e⟩, ⟨hmem, hstale⟩, rfl⟩

theorem touches_store (n : PropagationNode) (T : TimeText) (a : Acceptance) :
    Touches (· = a.transientID) n (n.storePropagationMessageStamped T a) where
  entry id hid := AList.lookup_insert_ne hid
  file name id hname hid := by
    have hne : name ≠ a.filename T := by
      rintro rfl
      exact hid (some.inj (hname.symm.trans fileID_filename))
    rw [storePropagationMessageStamped]
    split_ifs
    · exact AList.lookup_insert_ne hne
    · rfl

theorem sound_store (hn : n.Sound) (a : Acceptance) : (n.storePropagationMessageStamped T a).Sound := by
  intro id e name hlookup hpath
  by_cases hid : id = a.transientID
  · subst hid
    obtain rfl := some.inj ((AList.lookup_insert _).symm.trans hlookup)
    split_ifs at hpath
    cases hpath
    exact fileID_filename
  · exact hn id e name ((AList.lookup_insert_ne hid).symm.trans hlookup) hpath

theorem indexFile_spec {fileData : Bytes} {order : ℕ+} (h : indexFile T name fileData order = some (id, e)) :
    fileID name = some id ∧ e.path = some name := by
  obtain ⟨⟨id', t, v⟩, hparse, h⟩ := bind_eq_some_iff.mp h
  dsimp only at h
  split at h
  · cases h
  · cases h
    exact ⟨fileID_of_parse hparse, rfl⟩

theorem namesIDs_indexFiles (files : Table Bytes) : ∀ (names : List Str) (entries : Table StoreEntry) (sequence : Nat),
    NamesIDs entries → NamesIDs (indexFiles T files names (entries, sequence)).1 := by
  intro names
  induction names with
  | nil => exact fun _ _ h => h
  | cons name names ih =>
    intro entries sequence h
    rw [indexFiles]
    split
    · rename_i id e hindex
      obtain ⟨fileData, -, hindex⟩ := bind_eq_some_iff.mp hindex
      obtain ⟨hid, hpath⟩ := indexFile_spec hindex
      refine ih _ _ fun id' e' name' hlookup hpath' => ?_
      by_cases heq : id' = id
      · subst heq
        obtain rfl := some.inj ((AList.lookup_insert _).symm.trans hlookup)
        obtain rfl := some.inj (hpath.symm.trans hpath')
        exact hid
      · exact h id' e' name' ((AList.lookup_insert_ne heq).symm.trans hlookup) hpath'
    · exact ih _ _ h

theorem sound_reindex (T : TimeText) (names : List Str) : (n.reindexPropagationStore T names).Sound := by
  have hempty : NamesIDs ∅ := fun _ _ _ hlookup => by simp at hlookup
  exact namesIDs_indexFiles n.files names ∅ 0 hempty

theorem sound_removeStale (hn : n.Sound) (now : Time) : (n.removeStale T now).Sound := (touches_foldl_remove _ hn).2

theorem sound_makeRoom (bytesNeeded : ℚ) : ∀ (weighted : List Bytes) {n : PropagationNode} (bytesCleaned : ℚ),
    n.Sound → (n.makeRoom bytesNeeded bytesCleaned weighted).Sound := by
  intro weighted
  induction weighted with
  | nil => exact fun _ hn => hn
  | cons id weighted ih =>
    intro n bytesCleaned hn
    rw [makeRoom]
    split_ifs
    · exact hn
    · exact ih _ (sound_removePropagationEntry hn id)

/-! ### Deleting what the identity has -/

theorem ownEntry_eq_some {h : Bytes} :
    n.ownEntry h id = some e ↔ n.propagationEntries.lookup id = some e ∧ e.destinationHash = h := by
  rw [ownEntry, filter_eq_some_iff, decide_eq_true_eq]

theorem messageGetRequestTransientID_eq {value : Msgpack.Value}
    (h : messageGetRequestTransientID value = some (some id)) : value = .bin id := by
  cases value with
  | bin b =>
    cases h
    rfl
  | _ => cases h

/-- Only entries of the identity are touched that it names. -/
def Deletes (h : Bytes) (haves : List Msgpack.Value) (n n' : PropagationNode) : Prop :=
  Touches (fun id => (∃ e, n.ownEntry h id = some e) ∧ Msgpack.Value.bin id ∈ haves) n n' ∧ n'.Sound

theorem Deletes.refl {h : Bytes} {haves : List Msgpack.Value} (hn : n.Sound) : Deletes h haves n n := ⟨.refl n, hn⟩

theorem deleteHaves_spec (h : Bytes) : ∀ (haves : List Msgpack.Value) {n : PropagationNode}, n.Sound →
    Deletes h haves n (n.deleteHaves h haves).2 := by
  intro haves
  induction haves with
  | nil => exact .refl
  | cons value haves ih =>
    intro n hn
    have hrest := ih hn
    rw [deleteHaves]
    split
    · exact .refl hn
    · exact ⟨hrest.1.mono fun _ hid => ⟨hid.1, mem_cons_of_mem _ hid.2⟩, hrest.2⟩
    · rename_i id hvalue
      obtain rfl := messageGetRequestTransientID_eq hvalue
      cases hown : n.ownEntry h id with
      | none => exact ⟨hrest.1.mono fun _ hid => ⟨hid.1, mem_cons_of_mem _ hid.2⟩, hrest.2⟩
      | some e =>
        obtain ⟨htouches, hsound⟩ := ih (sound_removePropagationEntry hn id)
        have hfirst : Touches (fun id' => (∃ e, n.ownEntry h id' = some e) ∧ Msgpack.Value.bin id' ∈ .bin id :: haves) n
            (n.removePropagationEntry id) := by
          refine (touches_removePropagationEntry hn id).mono ?_
          rintro id' rfl
          exact ⟨⟨e, hown⟩, mem_cons_self⟩
        refine ⟨hfirst.trans (htouches.mono ?_), hsound⟩
        rintro id' ⟨⟨e', hown'⟩, hmem⟩
        rw [ownEntry_eq_some, lookup_removePropagationEntry] at hown'
        split_ifs at hown' with heq
        · cases hown'.1
        · exact ⟨⟨e', ownEntry_eq_some.mpr hown'⟩, mem_cons_of_mem _ hmem⟩

theorem getMessages_spec (hn : n.Sound) (h : Bytes) (limit : Option Int) (wants haves : List Msgpack.Value) :
    Deletes h haves n (n.getMessages h limit wants haves).2 := by
  have hspec := deleteHaves_spec h haves hn
  rw [getMessages]
  generalize n.deleteHaves h haves = result at hspec
  rcases result with ⟨_ | _, n₁⟩
  · exact hspec
  · dsimp only
    split
    · exact hspec
    · obtain ⟨htouches, hsound⟩ := hspec
      exact ⟨⟨htouches.entry, htouches.file⟩, hsound⟩

def namedHaves : List Msgpack.Value → List Msgpack.Value
  | _ :: second :: _ => (messageGetRequestEntries second).getD []
  | _ => []

def requestedHaves (data : Bytes) : List Msgpack.Value :=
  ((decodeAnyPreserveBinMapKeys data).bind messageGetRequestRoot).elim [] namedHaves

theorem answerRequest_spec (hn : n.Sound) (visit : EntryVisit) (h : Bytes) (request : List Msgpack.Value) :
    Deletes h (namedHaves request) n (n.answerRequest L visit h request).2 := by
  rw [answerRequest.eq_def]
  split
  · rename_i first second rest
    split
    · rename_i wants haves _ hhaves
      split
      · exact .refl hn
      · have hnamed : namedHaves (first :: second :: rest) = haves := by
          rw [namedHaves, hhaves]
          rfl
        rw [hnamed]
        exact getMessages_spec hn _ _ _ _
    · exact .refl hn
  · exact .refl hn

theorem messageGetRequest_spec (hn : n.Sound) (visit : EntryVisit) (identityHash data : Bytes) :
    Deletes (deliveryHash identityHash) (requestedHaves data) n
      (n.messageGetRequest L visit (some identityHash) data).2 := by
  rw [messageGetRequest]
  split_ifs
  · exact .refl hn
  · split
    · exact .refl hn
    · rename_i unpacked hdecoded
      split
      · exact .refl hn
      · rename_i request hroot
        have hrequest : requestedHaves data = namedHaves request := by
          rw [requestedHaves, hdecoded, bind_some, hroot]
          rfl
        rw [hrequest]
        exact answerRequest_spec hn visit _ _

theorem sound_step {x : Action} (hn : n.Sound) (h : n.step T L x = some n') : n'.Sound := by
  cases x with
  | store a =>
    cases h
    exact sound_store hn a
  | clean now weighted =>
    cases h
    rw [cleanMessageStore]
    split_ifs
    · exact sound_removeStale hn now
    · exact sound_makeRoom _ _ _ (sound_removeStale hn now)
  | restart names now =>
    rw [step] at h
    split_ifs at h
    cases h
    exact sound_removeStale (sound_reindex T names) now
  | get visit remoteIdentity data =>
    cases h
    cases remoteIdentity with
    | none => exact hn
    | some identityHash => exact (messageGetRequest_spec hn visit identityHash data).2
  | setAccess authRequired allowedList | setMessageStorageLimit limit =>
    cases h
    exact hn

theorem sound_reachable (h : Reachable (step T L) {} n) : n.Sound :=
  h.invariant Sound (fun _ _ _ hlookup => by simp at hlookup) fun _ _ _ hn hstep => sound_step hn hstep

namespace Sample

def timeText : TimeText where
  format t := (Text.formatInt (t / 1000000000)).filter (· ≠ 95)
  parse s := (Text.digitsValue s).map fun n => n * 1000000000
  same a b := a = b
  format_digits t := by simp
  same_refl t := by simp

def limitText : LimitText := ⟨fun _ => none, fun _ => none⟩

def visit : EntryVisit := ⟨fun entries => entries, fun _ => .refl _⟩

def identityHash : Bytes := List.replicate 16 1

def unstamped : Acceptance where
  receivedAt := 1700000000000000000
  lxmfData := deliveryHash identityHash ++ [1, 2, 3, 4]
  length_lxmfData := by simp [deliveryHash, destinationLength]
  stamp := Acceptance.stamp_absent

end Sample

end PropagationNode
end Reticulum.Lxmf
