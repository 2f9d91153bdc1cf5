import Reticulum.Theorems.Lxmf.MessageStore
import Reticulum.Theorems.Msgpack.Ordered

/-! # A stored message until it is fetched -/

namespace Reticulum.Lxmf

open Msgpack (Value)
open Text (Str)
open Transitions List Option PropagationNode

namespace Acceptance

variable {T : TimeText} {a : Acceptance}
variable {t : Time} {e : StoreEntry} {id : Bytes}

/-! ### The file -/

theorem length_destinationHash : a.destinationHash.length = destinationLength := by
  rw [destinationHash, length_take, Nat.min_eq_left a.length_lxmfData]

theorem fileData_unstamped (h : a.stampData = []) : a.stampValue = 0 ∧ a.fileData = a.destinationHash ++ a.lxmfData := by
  refine ⟨?_, by rw [fileData, storeFileData, if_neg (not_not.mpr h)]⟩
  rcases a.stamp with ⟨-, hvalue⟩ | hlength
  · exact hvalue
  · rw [h] at hlength
    cases hlength

theorem fileData_stamped (h : a.stampData ≠ []) :
    a.stampData.length = stampSize ∧ a.fileData = a.lxmfData ++ a.stampData :=
  ⟨a.stamp.resolve_left fun hnil => h hnil.1, by rw [fileData, storeFileData, if_pos h]⟩

theorem take_fileData : a.fileData.take destinationLength = a.destinationHash := by
  by_cases hstamp : a.stampData = []
  · rw [(fileData_unstamped hstamp).2, take_left' length_destinationHash]
  · rw [(fileData_stamped hstamp).2, take_append_of_le_length a.length_lxmfData]
    rfl

theorem destinationLength_le_fileData : destinationLength ≤ a.fileData.length := by
  have := congrArg length a.take_fileData
  rw [length_take, length_destinationHash] at this
  exact min_eq_left_iff.mp this

theorem take_fileData_stamped (h : a.stampData ≠ []) : a.fileData.take (a.fileData.length - stampSize) = a.lxmfData := by
  obtain ⟨hlength, hdata⟩ := fileData_stamped h
  rw [hdata, length_append, hlength, Nat.add_sub_cancel, take_left]

theorem length_fileData_stamped (h : a.stampData ≠ []) : a.fileData.length = a.lxmfData.length + stampSize := by
  obtain ⟨hlength, hdata⟩ := fileData_stamped h
  rw [hdata, length_append, hlength]

theorem drop_fileData (h : a.stampData = []) : a.fileData.drop destinationLength = a.lxmfData := by
  rw [(fileData_unstamped h).2, drop_left' length_destinationHash]

theorem length_fileData (h : a.stampData = []) : a.fileData.length = destinationLength + a.lxmfData.length := by
  rw [(fileData_unstamped h).2, length_append, length_destinationHash]

def LooksStamped (a : Acceptance) : Prop :=
  a.stampData = [] ∧ destinationLength + stampSize ≤ a.fileData.length ∧
    fullHash (a.fileData.take (a.fileData.length - stampSize)) = a.transientID

/-! ### Entries -/

def entry (a : Acceptance) (T : TimeText) (order : ℕ+) : StoreEntry where
  destinationHash := a.destinationHash
  payload := a.lxmfData
  receivedAt := a.receivedAt
  order := order
  path := if a.persisted then some (a.filename T) else none
  size := if a.persisted then a.fileData.length else a.destinationHash.length + a.lxmfData.length
  stampValue := a.stampValue

def indexed (a : Acceptance) (T : TimeText) (order : ℕ+) (timestamp : Time) : StoreEntry where
  destinationHash := a.destinationHash
  payload :=
    if destinationLength + stampSize ≤ a.fileData.length ∧
      fullHash (a.fileData.take (a.fileData.length - stampSize)) = a.transientID
    then a.fileData.take (a.fileData.length - stampSize) else a.fileData.drop destinationLength
  receivedAt := timestamp
  order := order
  path := some (a.filename T)
  size := a.fileData.length
  stampValue := a.stampValue

variable {files : Table Bytes} {order : ℕ+}

theorem responsePayload_file (hpath : e.path = some (a.filename T))
    (hdestination : e.destinationHash = a.destinationHash) (hfile : files.lookup (a.filename T) = some a.fileData) :
    e.responsePayload files = some (if e.hasPersistedStamp then a.fileData.take (a.fileData.length - stampSize)
      else a.fileData.drop destinationLength) := by
  have hprefix : e.destinationHash ≠ [] ∧ e.destinationHash <+: a.fileData := by
    rw [hdestination]
    refine ⟨fun hnil => ?_, a.take_fileData ▸ take_prefix _ _⟩
    have := a.length_destinationHash
    rw [hnil] at this
    cases this
  rw [StoreEntry.responsePayload, hpath]
  dsimp only
  rw [hfile, bind_eq_bind, bind_some, if_pos hprefix, hdestination, length_destinationHash]
  split_ifs
  · rfl
  · rfl

theorem responsePayload_of_payload (hpath : e.path = some (a.filename T))
    (hdestination : e.destinationHash = a.destinationHash) (hpayload : e.payload = a.lxmfData)
    (hsize : e.size = a.fileData.length) (hvalue : e.stampValue = a.stampValue)
    (hfile : files.lookup (a.filename T) = some a.fileData) : e.responsePayload files = some a.lxmfData := by
  rw [responsePayload_file hpath hdestination hfile, StoreEntry.hasPersistedStamp, hpayload, hsize, hvalue]
  by_cases hstamp : a.stampData = []
  · have hlt : ¬a.lxmfData.length + stampSize ≤ destinationLength + a.lxmfData.length := by
      simp [stampSize, destinationLength]
      omega
    simp [fileData_unstamped hstamp |>.1, length_fileData hstamp, hlt, drop_fileData hstamp]
  · rw [take_fileData_stamped hstamp]
    simp [length_fileData_stamped hstamp]

theorem path_entry (h : a.persisted = true) : (a.entry T order).path = some (a.filename T) := if_pos h

theorem responsePayload_entry (hfile : a.persisted = true → files.lookup (a.filename T) = some a.fileData) :
    (a.entry T order).responsePayload files = some a.lxmfData := by
  cases hpersisted : a.persisted with
  | false =>
    have hpath : (a.entry T order).path = none := by rw [entry, hpersisted]; rfl
    rw [StoreEntry.responsePayload, hpath]
    rfl
  | true =>
    exact responsePayload_of_payload (path_entry hpersisted) rfl rfl (if_pos hpersisted) rfl (hfile hpersisted)

theorem payload_indexed (h : ¬a.LooksStamped) : (a.indexed T order t).payload = a.lxmfData := by
  rw [indexed]
  by_cases hstamp : a.stampData = []
  · rw [if_neg fun hlooks => h ⟨hstamp, hlooks⟩, drop_fileData hstamp]
  · have hlength : destinationLength + stampSize ≤ a.fileData.length := by
      rw [length_fileData_stamped hstamp]
      exact Nat.add_le_add_right a.length_lxmfData _
    rw [take_fileData_stamped hstamp, if_pos ⟨hlength, rfl⟩]

theorem responsePayload_indexed (hfile : files.lookup (a.filename T) = some a.fileData) (order : ℕ+) (t : Time) :
    (a.indexed T order t).responsePayload files = some a.lxmfData ↔ ¬a.LooksStamped := by
  constructor
  · rintro hresponse ⟨hstamp, hlooks⟩
    -- The last bytes of the message are taken for a stamp, and its destination hash stays.
    have hpayload : (a.indexed T order t).payload = a.fileData.take (a.fileData.length - stampSize) := if_pos hlooks
    have htake : (a.fileData.take (a.fileData.length - stampSize)).length = a.fileData.length - stampSize :=
      length_take_of_le (Nat.sub_le _ _)
    have hstamped : (a.indexed T order t).hasPersistedStamp = true := by
      rw [StoreEntry.hasPersistedStamp, hpayload, htake, Nat.sub_add_cancel (Nat.le_trans (Nat.le_add_left _ _) hlooks.1)]
      simp [indexed]
    rw [responsePayload_file rfl rfl hfile, if_pos hstamped] at hresponse
    have hlength := congrArg length (some.inj hresponse)
    rw [htake, length_fileData hstamp] at hlength
    have hle := hlooks.1
    rw [length_fileData hstamp] at hle
    simp only [destinationLength, stampSize] at hlength hle
    omega
  · intro h
    exact responsePayload_of_payload rfl rfl (payload_indexed h) rfl rfl hfile

/-! ### Where the message can be -/

def NotExpired (a : Acceptance) (T : TimeText) (now : Time) : Prop :=
  ∀ t, T.parse (T.format a.receivedAt) = some t → now ≤ t + messageExpiry

/-- The store knows nothing of the message. -/
structure Absent (a : Acceptance) (T : TimeText) (n : PropagationNode) : Prop where
  entry : n.propagationEntries.lookup a.transientID = none
  file : ∀ name data t v, n.files.lookup name = some data →
    parsePropagationStoreFilename T name ≠ some (a.transientID, t, v)

/-- The file of the message is there if it could be written, and a restart takes no other file for it. -/
structure Filed (a : Acceptance) (T : TimeText) (n : PropagationNode) : Prop where
  file : a.persisted = true → n.files.lookup (a.filename T) = some a.fileData
  only : ∀ name data t v, n.files.lookup name = some data →
    parsePropagationStoreFilename T name = some (a.transientID, t, v) → a.persisted = true ∧ name = a.filename T

/-- The entry is as the message was stored. -/
structure Stored (a : Acceptance) (T : TimeText) (n : PropagationNode) : Prop extends a.Filed T n where
  entry : ∃ order, n.propagationEntries.lookup a.transientID = some (a.entry T order)

/-- The entry is as a restart reads it from the file. -/
structure Indexed (a : Acceptance) (T : TimeText) (n : PropagationNode) : Prop extends a.Filed T n where
  persisted : a.persisted = true
  named : a.IsNamed
  entry : ∃ order t, T.parse (T.format a.receivedAt) = some t ∧
    n.propagationEntries.lookup a.transientID = some (a.indexed T order t)

variable {n n' : PropagationNode} {ids : Bytes → Prop} {now : Time}

theorem Absent.touched (h : a.Absent T n) (ht : n.Touches ids n') (hid : ¬ids a.transientID) : a.Absent T n' where
  entry := (ht.entry _ hid).trans h.entry
  file name data t v hdata hparse := by
    rw [ht.file name a.transientID (fileID_of_parse hparse) hid] at hdata
    exact h.file name data t v hdata hparse

theorem Filed.touched (h : a.Filed T n) (ht : n.Touches ids n') (hid : ¬ids a.transientID) : a.Filed T n' where
  file hpersisted := (ht.file _ _ fileID_filename hid).trans (h.file hpersisted)
  only name data t v hdata hparse := by
    rw [ht.file name a.transientID (fileID_of_parse hparse) hid] at hdata
    exact h.only name data t v hdata hparse

theorem Stored.touched (h : a.Stored T n) (ht : n.Touches ids n') (hid : ¬ids a.transientID) : a.Stored T n' where
  toFiled := h.toFiled.touched ht hid
  entry := h.entry.imp fun _ hentry => (ht.entry _ hid).trans hentry

theorem Indexed.touched (h : a.Indexed T n) (ht : n.Touches ids n') (hid : ¬ids a.transientID) : a.Indexed T n' where
  toFiled := h.toFiled.touched ht hid
  persisted := h.persisted
  named := h.named
  entry := by
    obtain ⟨order, t, htime, hentry⟩ := h.entry
    exact ⟨order, t, htime, (ht.entry _ hid).trans hentry⟩

theorem Absent.store (h : a.Absent T n) : a.Stored T (n.storePropagationMessageStamped T a) where
  file hpersisted := by
    have hfiles : (n.storePropagationMessageStamped T a).files = n.files.insert (a.filename T) a.fileData := if_pos hpersisted
    rw [hfiles, AList.lookup_insert]
  only name data t v hdata hparse := by
    have hfiles : (n.storePropagationMessageStamped T a).files =
      if a.persisted then n.files.insert (a.filename T) a.fileData else n.files := rfl
    rw [hfiles] at hdata
    split_ifs at hdata with hpersisted
    · by_cases heq : name = a.filename T
      · exact ⟨hpersisted, heq⟩
      · rw [AList.lookup_insert_ne heq] at hdata
        exact absurd hparse (h.file name data t v hdata)
    · exact absurd hparse (h.file name data t v hdata)
  entry := ⟨_, AList.lookup_insert _⟩

/-! ### Cleaning -/

/-- The file's name, if there is one, has three parts, and its time is that of the entry in float64 seconds. -/
def SurvivesClean (a : Acceptance) (T : TimeText) : Prop :=
  a.persisted = true → a.IsNamed ∧ ∃ t, T.parse (T.format a.receivedAt) = some t ∧ T.same t a.receivedAt = true

theorem isStale_filename (hpath : e.path = some (a.filename T)) (hvalue : e.stampValue = a.stampValue)
    (h : a.NotExpired T now) : isStale T now a.transientID e = false ↔
      a.IsNamed ∧ ∃ t, T.parse (T.format a.receivedAt) = some t ∧ T.same t e.receivedAt = true := by
  rw [isStale, hpath]
  dsimp only
  by_cases hnamed : a.IsNamed
  · rw [parse_filename hnamed]
    cases htime : T.parse (T.format a.receivedAt) with
    | none => simp
    | some t =>
      have hexpired : ¬t + messageExpiry < now := Int.not_lt.mpr (h t htime)
      simp [hnamed, hvalue, hexpired]
  · rw [parse_filename_unnamed hnamed]
    simp [hnamed]

theorem isStale_entry (h : a.NotExpired T now) (order : ℕ+) :
    isStale T now a.transientID (a.entry T order) = false ↔ a.SurvivesClean T := by
  cases hpersisted : a.persisted with
  | false =>
    have hpath : (a.entry T order).path = none := by rw [entry, hpersisted]; rfl
    rw [isStale, hpath, SurvivesClean, hpersisted]
    simp
  | true =>
    rw [isStale_filename (path_entry hpersisted) rfl h, SurvivesClean, hpersisted]
    exact ⟨fun h _ => h, fun h => h rfl⟩

theorem notMem_staleIDs (hlookup : n.propagationEntries.lookup id = some e)
    (hstale : isStale T now id e = false) : id ∉ n.staleIDs T now := by
  intro hmem
  obtain ⟨e', hlookup', hstale'⟩ := mem_staleIDs.mp hmem
  obtain rfl := some.inj (hlookup.symm.trans hlookup')
  exact Bool.false_ne_true (hstale.symm.trans hstale')

theorem Absent.removeStale (h : a.Absent T n) (hn : n.Sound) (now : Time) : a.Absent T (n.removeStale T now) := by
  refine h.touched (touches_foldl_remove _ hn).1 fun hmem => ?_
  obtain ⟨e, hlookup, -⟩ := mem_staleIDs.mp hmem
  rw [h.entry] at hlookup
  cases hlookup

theorem Indexed.removeStale (h : a.Indexed T n) (hn : n.Sound) (hexpiry : a.NotExpired T now) :
    a.Indexed T (n.removeStale T now) := by
  obtain ⟨order, t, htime, hlookup⟩ := h.entry
  exact h.touched (touches_foldl_remove _ hn).1
    (notMem_staleIDs hlookup ((isStale_filename rfl rfl hexpiry).mpr ⟨h.named, t, htime, T.same_refl t⟩))

theorem Stored.removeStale (h : a.Stored T n) (hn : n.Sound) (hexpiry : a.NotExpired T now) (hclean : a.SurvivesClean T) :
    a.Stored T (n.removeStale T now) := by
  obtain ⟨order, hlookup⟩ := h.entry
  exact h.touched (touches_foldl_remove _ hn).1
    (notMem_staleIDs hlookup ((isStale_entry hexpiry order).mpr hclean))

theorem Stored.removeStale_absent (h : a.Stored T n) (hexpiry : a.NotExpired T now)
    (hclean : ¬a.SurvivesClean T) : a.Absent T (n.removeStale T now) := by
  obtain ⟨order, hlookup⟩ := h.entry
  have hstale : isStale T now a.transientID (a.entry T order) = true := by
    rw [← Bool.not_eq_false, isStale_entry hexpiry]
    exact hclean
  have hmem := mem_staleIDs.mpr ⟨_, hlookup, hstale⟩
  refine ⟨(lookup_foldl_remove _ n).trans (if_pos hmem), fun name data t v hdata hparse => ?_⟩
  obtain ⟨hbefore, hpaths⟩ := lookup_files_foldl_remove _ hdata
  obtain ⟨hpersisted, rfl⟩ := h.only name data t v hbefore hparse
  exact hpaths _ hmem _ hlookup (path_entry hpersisted)

/-! ### Restarting -/

/-- The file was written, its name has three parts, and the message is not taken for one with a stamp. -/
def SurvivesRestart (a : Acceptance) (T : TimeText) : Prop :=
  a.persisted = true ∧ a.IsNamed ∧ (T.parse (T.format a.receivedAt)).isSome = true ∧ ¬a.LooksStamped

def Found (a : Acceptance) (T : TimeText) : Prop :=
  a.persisted = true ∧ a.IsNamed ∧ (T.parse (T.format a.receivedAt)).isSome = true

variable {files : Table Bytes}

theorem indexFile_parse {name : Str} {data : Bytes} {order : ℕ+}
    (h : indexFile T name data order = some (id, e)) : ∃ t v, parsePropagationStoreFilename T name = some (id, t, v) := by
  obtain ⟨⟨id', t, v⟩, hparse, h⟩ := bind_eq_some_iff.mp h
  dsimp only at h
  split at h
  · cases h
  · cases h
    exact ⟨t, v, hparse⟩

theorem lookup_indexFiles : ∀ (names : List Str) (entries : Table StoreEntry) (sequence : Nat),
    (∀ name ∈ names, ∀ data, files.lookup name = some data → ∀ t v,
      parsePropagationStoreFilename T name ≠ some (id, t, v)) →
    (indexFiles T files names (entries, sequence)).1.lookup id = entries.lookup id := by
  intro names
  induction names with
  | nil => exact fun _ _ _ => rfl
  | cons name names ih =>
    intro entries sequence hnames
    have hrest := fun name' hmem => hnames name' (mem_cons_of_mem _ hmem)
    rw [indexFiles]
    split
    · rename_i id' e hindex
      obtain ⟨data, hdata, hindex⟩ := bind_eq_some_iff.mp hindex
      obtain ⟨t, v, hparse⟩ := indexFile_parse hindex
      have hne : id ≠ id' := by
        rintro rfl
        exact hnames name mem_cons_self data hdata t v hparse
      rw [ih _ _ hrest, AList.lookup_insert_ne hne]
    · exact ih _ _ hrest

theorem lookup_indexFiles_filename (hnamed : a.IsNamed) (htime : T.parse (T.format a.receivedAt) = some t)
    (hfile : files.lookup (a.filename T) = some a.fileData) :
    ∀ (names : List Str) (entries : Table StoreEntry) (sequence : Nat), a.filename T ∈ names →
    (∀ name ∈ names, ∀ data, files.lookup name = some data → ∀ t v,
      parsePropagationStoreFilename T name = some (a.transientID, t, v) → name = a.filename T) →
    ∃ order, (indexFiles T files names (entries, sequence)).1.lookup a.transientID =
      some (a.indexed T order t) := by
  intro names
  induction names with
  | nil => exact fun _ _ hmem => absurd hmem not_mem_nil
  | cons name names ih =>
    intro entries sequence hmem hnames
    have hrest := fun name' hmem => hnames name' (mem_cons_of_mem _ hmem)
    by_cases hlater : a.filename T ∈ names
    · rw [indexFiles]
      split
      · exact ih _ _ hlater hrest
      · exact ih _ _ hlater hrest
    · obtain rfl : a.filename T = name := (mem_cons.mp hmem).resolve_right hlater
      have hindex : ((files.lookup (a.filename T)).bind fun fileData =>
          indexFile T (a.filename T) fileData sequence.succPNat) =
          some (a.transientID, a.indexed T sequence.succPNat t) := by
        have hlength : ¬a.fileData.length < destinationLength := Nat.not_lt.mpr destinationLength_le_fileData
        rw [hfile, bind_some, indexFile, parse_filename hnamed, htime, indexed, ← take_fileData]
        simp [hlength]
      rw [indexFiles, hindex]
      refine ⟨sequence.succPNat, ?_⟩
      rw [lookup_indexFiles names, AList.lookup_insert]
      intro name' hmem' data hdata t' v hparse
      exact hlater (hrest name' hmem' data hdata t' v hparse ▸ hmem')

theorem Filed.parse_none (h : a.Filed T n) (hfound : ¬a.Found T) {name : Str} {data : Bytes} {v : Int}
    (hdata : n.files.lookup name = some data) : parsePropagationStoreFilename T name ≠ some (a.transientID, t, v) := by
  intro hparse
  obtain ⟨hpersisted, rfl⟩ := h.only name data t v hdata hparse
  by_cases hnamed : a.IsNamed
  · rw [parse_filename hnamed] at hparse
    obtain ⟨t', htime, -⟩ := map_eq_some_iff.mp hparse
    exact hfound ⟨hpersisted, hnamed, by rw [htime]; rfl⟩
  · rw [parse_filename_unnamed hnamed] at hparse
    cases hparse

variable {names : List Str}

theorem absent_restart (h : ∀ name data t v, n.files.lookup name = some data →
      parsePropagationStoreFilename T name ≠ some (a.transientID, t, v)) (names : List Str) (now : Time) :
    a.Absent T (n.enablePropagation T names now) := by
  have hreindexed : a.Absent T (n.reindexPropagationStore T names) := by
    refine ⟨?_, h⟩
    refine (lookup_indexFiles names ∅ 0 fun name _ data hdata t v => h name data t v hdata).trans ?_
    exact AList.lookup_empty _
  exact hreindexed.removeStale (sound_reindex T names) now

theorem Filed.restart (h : a.Filed T n) (hfound : a.Found T) (hnames : names.Perm n.files.keys)
    (hexpiry : a.NotExpired T now) : a.Indexed T (n.enablePropagation T names now) := by
  obtain ⟨hpersisted, hnamed, htime⟩ := hfound
  obtain ⟨t, htime⟩ := isSome_iff_exists.mp htime
  have hfile := h.file hpersisted
  have hmem : a.filename T ∈ names := by
    rw [hnames.mem_iff, ← AList.mem_keys, ← AList.lookup_isSome, hfile]
    rfl
  have hreindexed : a.Indexed T (n.reindexPropagationStore T names) := by
    refine ⟨⟨h.file, h.only⟩, hpersisted, hnamed, ?_⟩
    obtain ⟨order, hlookup⟩ := lookup_indexFiles_filename hnamed htime hfile names ∅ 0 hmem
      fun name _ data hdata t v hparse => (h.only name data t v hdata hparse).2
    exact ⟨order, t, htime, hlookup⟩
  exact hreindexed.removeStale (sound_reindex T names) hexpiry

/-! ### Runs -/

/-- The message is not stored again, expired or purged, and the store is below its limit when cleaned. -/
def Spares (a : Acceptance) (T : TimeText) (n : PropagationNode) : PropagationNode.Action → Prop
  | .store b => b.transientID ≠ a.transientID
  | .clean now _ => a.NotExpired T now ∧ (n.messageStorageLimit ≤ 0 ∨
      Binary64.nearest (n.removeStale T now).messageStorageSize ≤ n.messageStorageLimit)
  | .restart _ now => a.NotExpired T now
  | .get _ remoteIdentity data => ∀ identityHash ∈ remoteIdentity, deliveryHash identityHash = a.destinationHash →
      Value.bin a.transientID ∉ PropagationNode.requestedHaves data
  | _ => True

/-- Cleaned only if the file's name agrees with the entry, and restarted only if the file is understood. -/
def Survives (a : Acceptance) (T : TimeText) : List PropagationNode.Action → Prop
  | [] => True
  | .clean _ _ :: as => a.SurvivesClean T ∧ a.Survives T as
  | .restart _ _ :: _ => a.SurvivesRestart T
  | _ :: as => a.Survives T as

variable {L : LimitText} {x : PropagationNode.Action}

theorem step_cases (hn : n.Sound) (hspares : a.Spares T n x) (h : n.step T L x = some n')
    (hdestination : ∀ e, n.propagationEntries.lookup a.transientID = some e → e.destinationHash = a.destinationHash) :
    (∃ ids : Bytes → Prop, n.Touches ids n' ∧ ¬ids a.transientID ∧ ∀ as, a.Survives T (x :: as) = a.Survives T as) ∨
      (∃ now weighted, x = .clean now weighted ∧ a.NotExpired T now ∧ n' = n.removeStale T now) ∨
      ∃ names now, x = .restart names now ∧ a.NotExpired T now ∧ names.Perm n.files.keys ∧
        n' = n.enablePropagation T names now := by
  cases x with
  | store b =>
    cases h
    exact .inl ⟨_, n.touches_store T b, hspares.symm, fun _ => rfl⟩
  | clean now weighted =>
    cases h
    exact .inr (.inl ⟨now, weighted, rfl, hspares.1, if_pos hspares.2⟩)
  | restart names now =>
    obtain ⟨hperm, h⟩ := ite_none_right_eq_some.mp h
    exact .inr (.inr ⟨names, now, rfl, hspares, hperm, (some.inj h).symm⟩)
  | get visit remoteIdentity data =>
    cases h
    cases remoteIdentity with
    | none => exact .inl ⟨fun _ => False, .refl n, fun h => h, fun _ => rfl⟩
    | some identityHash =>
      refine .inl ⟨_, (messageGetRequest_spec hn visit identityHash data).1, ?_, fun _ => rfl⟩
      rintro ⟨⟨e, hown⟩, hmem⟩
      obtain ⟨hlookup, hown⟩ := ownEntry_eq_some.mp hown
      exact hspares identityHash rfl (hown.symm.trans (hdestination e hlookup)) hmem
  | setAccess authRequired allowedList | setMessageStorageLimit limit =>
    cases h
    exact .inl ⟨fun _ => False, ⟨fun _ _ => rfl, fun _ _ _ _ => rfl⟩, fun h => h, fun _ => rfl⟩

theorem Absent.step (ha : a.Absent T n) (hn : n.Sound) (hspares : a.Spares T n x) (h : n.step T L x = some n') :
    a.Absent T n' := by
  have hnone : ∀ e, n.propagationEntries.lookup a.transientID = some e → e.destinationHash = a.destinationHash := by
    intro e he
    rw [ha.entry] at he
    cases he
  rcases step_cases hn hspares h hnone with ⟨ids, htouches, hid, -⟩ | ⟨now, -, -, -, rfl⟩ | ⟨names, now, -, -, -, rfl⟩
  · exact ha.touched htouches hid
  · exact ha.removeStale hn now
  · exact absent_restart ha.file names now

theorem Indexed.step (ha : a.Indexed T n) (hn : n.Sound) (hspares : a.Spares T n x) (h : n.step T L x = some n') :
    a.Indexed T n' := by
  obtain ⟨order, t, htime, hlookup⟩ := ha.entry
  have hown : ∀ e, n.propagationEntries.lookup a.transientID = some e → e.destinationHash = a.destinationHash := by
    intro e he
    obtain rfl := some.inj (hlookup.symm.trans he)
    rfl
  rcases step_cases hn hspares h hown with
    ⟨ids, htouches, hid, -⟩ | ⟨now, -, -, hexpiry, rfl⟩ | ⟨names, now, -, hexpiry, hperm, rfl⟩
  · exact ha.touched htouches hid
  · exact ha.removeStale hn hexpiry
  · exact ha.toFiled.restart ⟨ha.persisted, ha.named, by rw [htime]; rfl⟩ hperm hexpiry

theorem run_of_step {P : PropagationNode → Prop} {as : List Action}
    (hstep : ∀ {n n' x}, P n → n.Sound → a.Spares T n x → n.step T L x = some n' → P n') (h : P n) (hn : n.Sound)
    (hspares : Keeps (step T L) (a.Spares T) n as) (hrun : Transitions.run (step T L) n as = some n') : P n' :=
  (run_induction (fun n => n.Sound ∧ P n)
    (fun _ _ _ hs h hx => ⟨sound_step h.1 hx, hstep h.2 h.1 hs hx⟩) as ⟨hn, h⟩ hspares hrun).2

theorem Stored.run : ∀ (as : List Action) {n : PropagationNode}, a.Stored T n → n.Sound →
    Keeps (step T L) (a.Spares T) n as → Transitions.run (step T L) n as = some n' →
      a.Survives T as ∧ (a.Stored T n' ∨ a.Indexed T n' ∧ ¬a.LooksStamped) ∨
        ¬a.Survives T as ∧ (a.Absent T n' ∨ a.Indexed T n' ∧ a.LooksStamped) := by
  intro as
  induction as with
  | nil =>
    intro n ha _ _ hrun
    obtain rfl := run_nil.mp hrun
    exact .inl ⟨trivial, .inl ha⟩
  | cons x as ih =>
    rintro n ha hn ⟨hspares, hkeeps⟩ hrun
    obtain ⟨n₁, hstep, hrun⟩ := run_cons.mp hrun
    have hn₁ := sound_step hn hstep
    have hkeeps := hkeeps n₁ hstep
    have hown : ∀ e, n.propagationEntries.lookup a.transientID = some e → e.destinationHash = a.destinationHash := by
      intro e he
      obtain ⟨order, hlookup⟩ := ha.entry
      obtain rfl := some.inj (hlookup.symm.trans he)
      rfl
    rcases step_cases hn hspares hstep hown with
      ⟨ids, htouches, hid, hsurvives⟩ | ⟨now, weighted, rfl, hexpiry, rfl⟩ | ⟨names, now, rfl, hexpiry, hperm, rfl⟩
    · rw [hsurvives]
      exact ih (ha.touched htouches hid) hn₁ hkeeps hrun
    · by_cases hclean : a.SurvivesClean T
      · have hrest := ih (ha.removeStale hn hexpiry hclean) hn₁ hkeeps hrun
        rwa [Survives, and_iff_right hclean]
      · refine .inr ⟨fun h => hclean h.1, .inl ?_⟩
        exact run_of_step Absent.step (ha.removeStale_absent hexpiry hclean) hn₁ hkeeps hrun
    · by_cases hfound : a.Found T
      · have hindexed := run_of_step Indexed.step (ha.toFiled.restart hfound hperm hexpiry) hn₁ hkeeps hrun
        by_cases hlooks : a.LooksStamped
        · exact .inr ⟨fun h => h.2.2.2 hlooks, .inr ⟨hindexed, hlooks⟩⟩
        · exact .inl ⟨⟨hfound.1, hfound.2.1, hfound.2.2, hlooks⟩, .inr ⟨hindexed, hlooks⟩⟩
      · refine .inr ⟨fun h => hfound ⟨h.1, h.2.1, h.2.2.1⟩, .inl ?_⟩
        refine run_of_step Absent.step (absent_restart (fun _ _ _ _ hdata => ?_) names now) hn₁ hkeeps hrun
        exact ha.toFiled.parse_none hfound hdata

end Acceptance

/-! ### The answer -/

namespace PropagationNode

theorem messageGetRequest_items_iff {L : LimitText} {n : PropagationNode} {visit : EntryVisit}
    {identityHash data id payload : Bytes} (haccess : n.authRequired = true → identityHash ∈ n.allowedList)
    (hdata : decodeAnyPreserveBinMapKeys data = some (.array [.array [.bin id], .nil])) :
    (n.messageGetRequest L visit (some identityHash) data).1 = .items [payload] ↔
      ∃ e, n.propagationEntries.lookup id = some e ∧ e.destinationHash = deliveryHash identityHash ∧
        e.responsePayload n.files = some payload := by
  have hallowed : ¬(n.authRequired = true ∧ identityHash ∉ n.allowedList) := fun h => h.2 (haccess h.1)
  simp only [← and_assoc, ← ownEntry_eq_some]
  rw [messageGetRequest, if_neg hallowed, hdata]
  change (n.getMessages (deliveryHash identityHash) none [.bin id] []).1 = _ ↔ _
  rw [getMessages, deleteHaves]
  dsimp only [collectWants, messageGetRequestTransientID]
  cases n.ownEntry (deliveryHash identityHash) id with
  | none => simp
  | some e =>
    cases hpayload : e.responsePayload n.files with
    | none | some payload' => simp [hpayload]

/-- An accepted message is returned just when it survives what the node does until then. -/
theorem stored_message_returned_iff (T : TimeText) (L : LimitText) {n n₁ n₂ : PropagationNode} {a : Acceptance}
    {as : List Action} (hn : Reachable (step T L) {} n) (habsent : a.Absent T n) (hstore : n.step T L (.store a) = some n₁)
    (hrun : run (step T L) n₁ as = some n₂) (hspares : Keeps (step T L) (a.Spares T) n₁ as) (visit : EntryVisit)
    {identityHash data : Bytes} (hidentity : deliveryHash identityHash = a.destinationHash)
    (haccess : n₂.authRequired = true → identityHash ∈ n₂.allowedList)
    (hdata : decodeAnyPreserveBinMapKeys data = some (.array [.array [.bin a.transientID], .nil])) :
    (n₂.messageGetRequest L visit (some identityHash) data).1 = .items [a.lxmfData] ↔ a.Survives T as := by
  have hn₁ := sound_step (sound_reachable hn) hstore
  cases hstore
  rw [messageGetRequest_items_iff haccess hdata]
  rcases habsent.store.run as hn₁ hspares hrun with
    ⟨hsurvives, hstored | ⟨hindexed, hlooks⟩⟩ | ⟨hlost, habsent | ⟨hindexed, hlooks⟩⟩
  · obtain ⟨order, hlookup⟩ := hstored.entry
    exact iff_of_true ⟨_, hlookup, hidentity.symm, Acceptance.responsePayload_entry hstored.file⟩ hsurvives
  · obtain ⟨order, t, -, hlookup⟩ := hindexed.entry
    have hresponse := (Acceptance.responsePayload_indexed (hindexed.file hindexed.persisted) order t).mpr hlooks
    exact iff_of_true ⟨_, hlookup, hidentity.symm, hresponse⟩ hsurvives
  · refine iff_of_false ?_ hlost
    rintro ⟨e, hlookup, -⟩
    rw [habsent.entry] at hlookup
    cases hlookup
  · refine iff_of_false ?_ hlost
    rintro ⟨e, hlookup, -, hresponse⟩
    obtain ⟨order, t, -, hlookup'⟩ := hindexed.entry
    obtain rfl := Option.some.inj (hlookup'.symm.trans hlookup)
    exact (Acceptance.responsePayload_indexed (hindexed.file hindexed.persisted) order t).mp hresponse hlooks

def oneRequest (id : Bytes) : Bytes := Msgpack.pack false (.array [.array [.bin id], .nil])

theorem decode_oneRequest {id : Bytes} (hid : id.length < 2 ^ 32) :
    decodeAnyPreserveBinMapKeys (oneRequest id) = some (.array [.array [.bin id], .nil]) := by
  have hcanonical : Msgpack.Canonical (.array [.array [.bin id], .nil]) := by
    refine .array (by simp) fun v hv => ?_
    rcases mem_cons.mp hv with rfl | hv
    · refine .array (by simp) fun v hv => ?_
      obtain rfl := mem_singleton.mp hv
      exact .bin hid
    · obtain rfl := mem_singleton.mp hv
      exact .nil
  rw [decodeAnyPreserveBinMapKeys, oneRequest, Msgpack.unpackStrictOrdered_pack hcanonical]
  rfl

namespace Sample

def valueless : Acceptance := { unstamped with stampData := List.replicate 32 0, stamp := .inr rfl }

def later : Time := 1700000060000000000

def maintenance : List Action := [.clean later [], .restart [unstamped.filename timeText] later]

theorem parse_time : timeText.parse (timeText.format 1700000000000000000) = some 1700000000000000000 := by
  decide +kernel

theorem notExpired {a : Acceptance} (h : a.receivedAt = 1700000000000000000) : a.NotExpired timeText later := by
  intro t ht
  rw [h, parse_time] at ht
  cases ht
  decide

theorem unstamped_returned : ∃ n₁ n₂, step timeText limitText {} (.store unstamped) = some n₁ ∧
    run (step timeText limitText) n₁ maintenance = some n₂ ∧
    (n₂.messageGetRequest limitText visit (some identityHash) (oneRequest unstamped.transientID)).1 =
      .items [unstamped.lxmfData] := by
  obtain ⟨n₂, hrun, haccess⟩ : ∃ n ∈ run (step timeText limitText)
      (storePropagationMessageStamped {} timeText unstamped) maintenance, n.authRequired = false := by
    decide +kernel
  have hid : unstamped.transientID.length < 2 ^ 32 := by
    decide
  refine ⟨_, n₂, rfl, hrun, ?_⟩
  refine (stored_message_returned_iff timeText limitText ⟨[], rfl⟩ ⟨rfl, fun _ _ _ _ h => ?_⟩ rfl hrun ?_ visit ?_ ?_
    (decode_oneRequest hid)).mpr ?_
  · cases h
  · refine ⟨⟨notExpired rfl, .inl ?_⟩, fun n _ => ⟨notExpired rfl, fun _ _ => trivial⟩⟩
    decide +kernel
  · rw [Acceptance.destinationHash, unstamped, List.take_left' (by simp [deliveryHash, destinationLength])]
  · rw [haccess]
    exact fun h => absurd h Bool.false_ne_true
  · refine ⟨fun _ => ⟨.inl rfl, _, parse_time, rfl⟩, rfl, .inl rfl, ?_, ?_⟩
    · exact Option.isSome_iff_exists.mpr ⟨_, parse_time⟩
    · rintro ⟨-, hlength, -⟩
      revert hlength
      decide +kernel

/-- The name of the file has two parts, and the first clean removes the message. -/
theorem valueless_lost : ∃ n₁ n₂, step timeText limitText {} (.store valueless) = some n₁ ∧
    run (step timeText limitText) n₁ [.clean later []] = some n₂ ∧ valueless.NotExpired timeText later ∧
    (n₁.messageGetRequest limitText visit (some identityHash) (oneRequest valueless.transientID)).1 =
      .items [valueless.lxmfData] ∧
    (n₂.messageGetRequest limitText visit (some identityHash) (oneRequest valueless.transientID)).1 = .items [] := by
  refine ⟨_, _, rfl, rfl, notExpired rfl, ?_, ?_⟩
  · decide +kernel
  · decide +kernel

end Sample

end PropagationNode
end Reticulum.Lxmf
