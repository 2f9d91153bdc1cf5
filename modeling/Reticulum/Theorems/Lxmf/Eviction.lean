import Reticulum.Theorems.Lxmf.MessageStore

/-! # What is removed to make room

The bytes that are needed are rounded, and whole numbers are not. -/

namespace Reticulum.Lxmf.PropagationNode

open List

variable {T : TimeText} {n : PropagationNode} {id : Bytes} {e : StoreEntry} {now : Time} {weighted : List Bytes}

theorem lookup_removeStale (h : (n.removeStale T now).propagationEntries.lookup id = some e) :
    isStale T now id e = false := by
  rw [removeStale, lookup_foldl_remove] at h
  split_ifs at h with hmem
  by_contra hstale
  exact hmem (mem_staleIDs.mpr ⟨e, h, Bool.not_eq_false _ ▸ hstale⟩)

def entrySize (n : PropagationNode) (id : Bytes) : Nat := ((n.propagationEntries.lookup id).map (·.size)).getD 0

theorem messageStorageSize_remove (n : PropagationNode) (id : Bytes) :
    (n.removePropagationEntry id).messageStorageSize + n.entrySize id = n.messageStorageSize := by
  rw [removePropagationEntry, entrySize]
  cases hlookup : n.propagationEntries.lookup id with
  | none => rfl
  | some e =>
    have hmem : id ∈ n.propagationEntries.entries.keys :=
      AList.mem_keys.mp (AList.lookup_isSome.mp (by rw [hlookup]; rfl))
    obtain ⟨e', before, after, -, hentries, herase⟩ := exists_of_kerase hmem
    obtain rfl : e' = e := Option.some.inj ((AList.mem_lookup_iff.mpr (by simp [hentries])).symm.trans hlookup)
    change ((kerase id n.propagationEntries.entries).map fun e => e.2.size).sum + _ =
      (n.propagationEntries.entries.map fun e => e.2.size).sum
    rw [herase, hentries]
    simp
    omega

theorem entrySize_remove {id' : Bytes} (h : id' ≠ id) : (n.removePropagationEntry id).entrySize id' = n.entrySize id' := by
  rw [entrySize, lookup_removePropagationEntry, if_neg h, entrySize]

def bytes (n : PropagationNode) (ids : List Bytes) : Nat := (ids.map n.entrySize).sum

theorem bytes_remove {ids : List Bytes} (h : id ∉ ids) : (n.removePropagationEntry id).bytes ids = n.bytes ids := by
  refine congrArg sum (map_congr_left fun id' hid' => entrySize_remove ?_)
  rintro rfl
  exact h hid'

theorem bytes_mono {front ids : List Bytes} (h : front <+: ids) : n.bytes front ≤ n.bytes ids := by
  obtain ⟨rest, rfl⟩ := h
  simp [bytes]

theorem messageStorageSize_foldl : ∀ {ids : List Bytes} {n : PropagationNode}, ids.Nodup →
    (ids.foldl removePropagationEntry n).messageStorageSize + n.bytes ids = n.messageStorageSize
  | [], _, _ => rfl
  | id :: ids, n, h => by
    obtain ⟨hnot, hnodup⟩ := nodup_cons.mp h
    have hrest := @messageStorageSize_foldl ids (n.removePropagationEntry id) hnodup
    have hsize := n.messageStorageSize_remove id
    rw [bytes_remove hnot] at hrest
    rw [foldl_cons, bytes, map_cons, sum_cons, ← bytes]
    omega

/-- What is removed is the first part of the list that has the bytes that are needed, or all of it. -/
theorem makeRoom_spec (needed : ℚ) : ∀ (weighted : List Bytes) (n : PropagationNode) (cleaned : Nat), weighted.Nodup →
    cleaned + n.messageStorageSize < 2 ^ 53 → ∃ gone kept, weighted = gone ++ kept ∧
      n.makeRoom needed cleaned weighted = gone.foldl removePropagationEntry n ∧
      (kept = [] ∨ needed ≤ (cleaned + n.bytes gone : Nat)) ∧
      ∀ front, front <+: gone → front ≠ gone → (cleaned + n.bytes front : Nat) < needed := by
  intro weighted
  induction weighted with
  | nil => exact fun n cleaned _ _ => ⟨[], [], rfl, rfl, .inl rfl, fun front h hne => absurd (prefix_nil.mp h) hne⟩
  | cons id weighted ih =>
    intro n cleaned hnodup hmemory
    obtain ⟨hnot, hnodup⟩ := nodup_cons.mp hnodup
    rw [makeRoom]
    split_ifs with henough
    · exact ⟨[], id :: weighted, rfl, rfl, .inr henough, fun front h hne => absurd (prefix_nil.mp h) hne⟩
    · have hsize := n.messageStorageSize_remove id
      have hcleaned : Binary64.nearest (cleaned + Binary64.nearest (n.entrySize id)) = (cleaned + n.entrySize id : Nat) := by
        rw [Binary64.nearest_natCast (by omega), ← Nat.cast_add, Binary64.nearest_natCast (by omega)]
      obtain ⟨gone, kept, rfl, hroom, henough', hfront⟩ :=
        ih (n.removePropagationEntry id) (cleaned + n.entrySize id) hnodup (by omega)
      have hbytes : ∀ ids, ids <+: gone →
          cleaned + n.entrySize id + (n.removePropagationEntry id).bytes ids = cleaned + n.bytes (id :: ids) := by
        intro ids hids
        rw [bytes_remove fun hmem => hnot (mem_append_left _ (hids.subset hmem)), bytes, bytes, map_cons, sum_cons]
        omega
      refine ⟨id :: gone, kept, rfl, ?_, ?_, ?_⟩
      · rw [foldl_cons, ← hroom, ← hcleaned]
        rfl
      · rwa [hbytes gone prefix_rfl] at henough'
      · intro front hprefix hne
        cases front with
        | nil => simpa [bytes] using henough
        | cons first front =>
          obtain ⟨rfl, hrest⟩ := cons_prefix_cons.mp hprefix
          rw [← hbytes front hrest]
          exact hfront front hrest fun heq => hne (heq ▸ rfl)

def Evicted (before after : PropagationNode) (id : Bytes) : Prop :=
  id ∈ before.propagationEntries ∧ id ∉ after.propagationEntries

theorem mem_foldl_remove (ids : List Bytes) (n : PropagationNode) :
    id ∈ (ids.foldl removePropagationEntry n).propagationEntries ↔ id ∈ n.propagationEntries ∧ id ∉ ids := by
  rw [← AList.lookup_isSome, ← AList.lookup_isSome, lookup_foldl_remove]
  split_ifs with h <;> simp [h]

/-- Some first part of the entries has just the bytes that float64 makes of the excess, which has more. -/
def RoundsShort (limit : ℚ) (n : PropagationNode) (weighted : List Bytes) : Prop :=
  ∃ front, front <+: weighted ∧ (n.bytes front : ℚ) = Binary64.nearest (n.messageStorageSize - limit) ∧
    n.bytes front < n.messageStorageSize - limit

theorem messageStorageSize_eq_zero (h : ∀ id, id ∉ n.propagationEntries) : n.messageStorageSize = 0 := by
  have hempty : n.propagationEntries.entries = [] :=
    eq_nil_iff_forall_not_mem.mpr fun e he => h e.1 (AList.mem_keys.mpr (mem_keys_of_mem he))
  rw [messageStorageSize, hempty]
  rfl

/-- The entries that are removed for space, in falling weight: with the last of them the total is above the limit, and
    without them it is not, unless they have just the rounded difference and that is too small. -/
theorem cleanMessageStore_spec (n : PropagationNode) (T : TimeText) (now : Time)
    (hfloat : Binary64.Dyadic n.messageStorageLimit) (hlimit : 0 < n.messageStorageLimit)
    (hperm : weighted.Perm (n.removeStale T now).propagationEntries.keys)
    (hmemory : (n.removeStale T now).messageStorageSize < 2 ^ 53) :
    ∃ gone kept after, n.cleanMessageStore T now weighted = after ∧ weighted = gone ++ kept ∧
      after = gone.foldl removePropagationEntry (n.removeStale T now) ∧
      (after.messageStorageSize ≤ n.messageStorageLimit ↔ ¬RoundsShort n.messageStorageLimit (n.removeStale T now) weighted) ∧
      ∀ front last, gone = front ++ [last] →
        n.messageStorageLimit < after.messageStorageSize + (n.removeStale T now).entrySize last := by
  rw [cleanMessageStore]
  set before := n.removeStale T now
  set limit := n.messageStorageLimit
  have hnodup : weighted.Nodup := hperm.nodup_iff.mpr before.propagationEntries.keys_nodup
  rw [Binary64.nearest_natCast hmemory]
  split_ifs with hfits
  · have hfits : (before.messageStorageSize : ℚ) ≤ limit := hfits.resolve_left hlimit.not_ge
    refine ⟨[], weighted, before, rfl, rfl, rfl, iff_of_true hfits ?_, fun _ _ h => by simp at h⟩
    rintro ⟨front, -, -, hshort⟩
    have hbytes : (0 : ℚ) ≤ before.bytes front := Nat.cast_nonneg _
    linarith
  set excess := before.messageStorageSize - limit
  have hexcess : 0 ≤ excess := sub_nonneg.mpr (not_le.mp fun h => hfits (.inr h)).le
  obtain ⟨gone, kept, rfl, hroom, henough, hfront⟩ :=
    makeRoom_spec (Binary64.nearest excess) weighted before 0 hnodup (by omega)
  simp only [Nat.zero_add, Nat.cast_zero] at hroom henough hfront
  have hsize := messageStorageSize_foldl (n := before) (nodup_append.mp hnodup).1
  set after := gone.foldl removePropagationEntry before with hafter
  have hsizeQ : (after.messageStorageSize : ℚ) + before.bytes gone = excess + limit := by
    rw [sub_add_cancel]
    exact_mod_cast hsize
  have hbounds : ∀ front, front <+: gone → _ := fun front hprefix =>
    Binary64.nearest_bounds (hfloat.natCast_sub before.messageStorageSize) hexcess
      (show before.bytes front < 2 ^ 53 from ((bytes_mono hprefix).trans (by omega)).trans_lt hmemory)
  refine ⟨gone, kept, after, hroom, rfl, rfl, ⟨fun hfits => ?_, fun hnot => ?_⟩, fun front last hgone => ?_⟩
  · rintro ⟨front, hprefix, hrounded, hshort⟩
    rcases prefix_or_prefix_of_prefix hprefix (prefix_append gone kept) with hfirst | hfirst
    · by_cases heq : front = gone
      · rw [heq] at hshort
        linarith
      · exact absurd (hfront front hfirst heq) (not_lt.mpr hrounded.ge)
    · have hle : (before.bytes gone : ℚ) ≤ before.bytes front := by exact_mod_cast bytes_mono hfirst
      linarith
  · rcases henough with rfl | henough
    · rw [messageStorageSize_eq_zero fun id hid => ?_, Nat.cast_zero]
      · exact hlimit.le
      · rw [hafter, mem_foldl_remove] at hid
        exact hid.2 (append_nil gone ▸ hperm.mem_iff.mpr (AList.mem_keys.mp hid.1))
    · by_contra hlarge
      have hshort : (before.bytes gone : ℚ) < excess := by linarith [not_le.mp hlarge]
      exact hnot ⟨gone, prefix_append gone kept, le_antisymm ((hbounds gone prefix_rfl).2 hshort.le) henough, hshort⟩
  · have hprefix : front <+: gone := hgone ▸ prefix_append front [last]
    have hneeded := hfront front hprefix (by simp [hgone])
    have hshort : (before.bytes front : ℚ) < excess :=
      not_le.mp fun h => absurd hneeded (not_lt.mpr ((hbounds front hprefix).1 h))
    have hlast : (before.bytes gone : ℚ) = before.bytes front + before.entrySize last := by
      simp [hgone, bytes]
    linarith

/-- No entry stays whose file is older than the expiry, what stays is within the limit and no heavier than what was
    removed for it, and with a lightest entry of that it would be above the limit. -/
theorem clean_evicts_heaviest_iff {W : Type} [Preorder W] (weight : Bytes → W) (n : PropagationNode) (T : TimeText)
    (now : Time) (weighted : List Bytes) (hfloat : Binary64.Dyadic n.messageStorageLimit) (hlimit : 0 < n.messageStorageLimit)
    (hperm : weighted.Perm (n.removeStale T now).propagationEntries.keys)
    (hsorted : weighted.Pairwise fun a b => weight b ≤ weight a)
    (hmemory : (n.removeStale T now).messageStorageSize < 2 ^ 53) : let before := n.removeStale T now
    let after := n.cleanMessageStore T now weighted
    ((∀ id e name file, after.propagationEntries.lookup id = some e → e.path = some name →
      parsePropagationStoreFilename T name = some file → now ≤ file.2.1 + messageExpiry) ∧
    after.messageStorageSize ≤ n.messageStorageLimit ∧
    (∀ id id', Evicted before after id → id' ∈ after.propagationEntries → weight id' ≤ weight id) ∧
    ((∃ id, Evicted before after id) → ∃ id, Evicted before after id ∧
      (∀ id', Evicted before after id' → weight id ≤ weight id') ∧
      n.messageStorageLimit < after.messageStorageSize + before.entrySize id)) ↔
    ¬RoundsShort n.messageStorageLimit before weighted := by
  intro before after
  obtain ⟨gone, kept, after', hafter, rfl, hgone, hfits, hlast⟩ :=
    n.cleanMessageStore_spec T now hfloat hlimit hperm hmemory
  obtain rfl : after = after' := hafter
  have hmem : ∀ id, id ∈ gone ++ kept ↔ id ∈ before.propagationEntries := fun id => hperm.mem_iff.trans AList.mem_keys.symm
  have hstays : ∀ id, id ∈ after.propagationEntries ↔ id ∈ before.propagationEntries ∧ id ∉ gone := by
    rw [hgone]
    exact fun id => mem_foldl_remove gone before
  have hevicted : ∀ id, Evicted before after id ↔ id ∈ gone := by
    intro id
    rw [Evicted, hstays, not_and_not_right, ← hmem]
    exact ⟨fun h => h.2 h.1, fun h => ⟨mem_append_left _ h, fun _ => h⟩⟩
  obtain ⟨hheavy, -, hcross⟩ := pairwise_append.mp hsorted
  rw [← hfits]
  refine ⟨fun h => h.2.1, fun hfits => ⟨?_, hfits, ?_, ?_⟩⟩
  · intro id e name file hlookup hpath hparse
    rw [hgone, lookup_foldl_remove] at hlookup
    split_ifs at hlookup
    have hstale := lookup_removeStale hlookup
    rw [isStale, hpath] at hstale
    dsimp only at hstale
    rw [hparse] at hstale
    simp only [Bool.or_eq_false_iff, decide_eq_false_iff_not, Int.not_lt] at hstale
    exact hstale.2
  · intro id id' hid hid'
    obtain ⟨hbefore, hnot⟩ := (hstays id').mp hid'
    exact hcross id ((hevicted id).mp hid) id' ((mem_append.mp ((hmem id').mpr hbefore)).resolve_left hnot)
  · rintro ⟨id, hid⟩
    obtain ⟨front, last, rfl⟩ := (eq_nil_or_concat' gone).resolve_left (ne_nil_of_mem ((hevicted id).mp hid))
    refine ⟨last, (hevicted last).mpr (by simp), fun id' hid' => ?_, hlast front last rfl⟩
    rcases mem_append.mp ((hevicted id').mp hid') with hfront | hlast
    · exact (pairwise_append.mp hheavy).2.2 id' hfront last (by simp)
    · exact mem_singleton.mp hlast ▸ le_refl _

namespace Sample

def sized (size : Nat) : StoreEntry :=
  { destinationHash := [], payload := [], receivedAt := 0, order := 1, path := none, size, stampValue := 0 }

def full (limit : ℚ) (small large : Nat) : PropagationNode where
  propagationEntries := ((∅ : Table StoreEntry).insert [1] (sized small)).insert [2] (sized large)
  messageStorageLimit := limit

theorem full_evicts_heaviest : let n := full (9 / 2) 3 5
    Evicted (n.removeStale timeText 0) (n.cleanMessageStore timeText 0 [[2], [1]]) [2] ∧
      (n.cleanMessageStore timeText 0 [[2], [1]]).messageStorageSize ≤ (9 / 2 : ℚ) := by
  intro n
  refine ⟨⟨by decide, by decide +kernel⟩, ((clean_evicts_heaviest_iff (fun id => n.entrySize id) n timeText 0 [[2], [1]]
    ⟨1, by decide +kernel⟩ (by decide +kernel) (by decide) (by decide) (by decide)).mpr ?_).2.1⟩
  rintro ⟨front, -, hrounded, hshort⟩
  rw [hrounded] at hshort
  revert hshort
  decide +kernel

/-- With the limit `99.99999999999999`, 100 bytes stay. -/
theorem full_stays_above_limit : let n := full (7036874417766399 / 2 ^ 46) 100 1048576
    (n.cleanMessageStore timeText 0 [[2], [1]]).messageStorageSize = 100 ∧ n.messageStorageLimit < 100 := by
  decide +kernel

end Sample

end Reticulum.Lxmf.PropagationNode
