import Reticulum.Msgpack.Sorted
import Reticulum.Theorems.Msgpack.Ordered
import Mathlib.Data.List.Nodup
import Mathlib.Data.Fintype.Basic

/-! # What `PackSorted` writes -/

namespace Reticulum.Msgpack

open Parse List

variable {v : Value}

def sortWritten (entries : List (Value × Value)) : List (Value × Value) :=
  entries.mergeSort fun a b => decide (pack false a.1 ≤ pack false b.1)

mutual

/-- The value that the encoding stands for: maps are in order, and small numbers are not unsigned. -/
def written : Value → Value
  | .uint n => unsigned n
  | .array items => .array (writtenItems items)
  | .map entries => .map (sortWritten (writtenEntries entries))
  | .nil => .nil
  | .bool b => .bool b
  | .int i => .int i
  | .float32 bits => .float32 bits
  | .float64 bits => .float64 bits
  | .str s => .str s
  | .bin b => .bin b
  | .ext type data => .ext type data
  | .raw encoded => .raw encoded

def writtenItems : List Value → List Value
  | [] => []
  | v :: items => written v :: writtenItems items

def writtenEntries : List (Value × Value) → List (Value × Value)
  | [] => []
  | (k, v) :: entries => (written k, written v) :: writtenEntries entries

end

theorem writtenItems_eq (items : List Value) : writtenItems items = items.map written :=
  eq_map rfl (fun _ _ => rfl) items

variable (entries : List (Value × Value))

theorem writtenEntries_eq :
    writtenEntries entries = entries.map fun e => (written e.1, written e.2) :=
  eq_map rfl (fun _ _ => rfl) entries

/-- What can be put into a message: no map or byte slice is a key, and keys differ on the wire. -/
inductive Sendable : Value → Prop
  | nil : Sendable .nil
  | bool (b : Bool) : Sendable (.bool b)
  | int (i : Int64) : Sendable (.int i)
  | uint (n : UInt64) : Sendable (.uint n)
  | float32 (bits : UInt32) : Sendable (.float32 bits)
  | float64 (bits : UInt64) : Sendable (.float64 bits)
  | str {s : Bytes} (hs : s.length < 2 ^ 32) : Sendable (.str s)
  | bin {b : Bytes} (hb : b.length < 2 ^ 32) : Sendable (.bin b)
  | ext (type : Int8) {data : Bytes} (hdata : data.length < 2 ^ 32) : Sendable (.ext type data)
  | array {items : List Value} (hlen : items.length < 2 ^ 32) (hitems : ∀ v ∈ items, Sendable v) : Sendable (.array items)
  | map {entries : List (Value × Value)} (hlen : entries.length < 2 ^ 32) (hkeys : ∀ e ∈ entries, Sendable e.1)
    (hmaps : ∀ e ∈ entries, ∀ es, e.1 ≠ .map es) (hbytes : ∀ e ∈ entries, e.1.isBin = false)
    (hdistinct : (entries.map fun e => pack false (written e.1)).Nodup) (hvalues : ∀ e ∈ entries, Sendable e.2) :
    Sendable (.map entries)

theorem canonical_unsigned (n : UInt64) : Canonical (unsigned n) := by
  rw [unsigned]
  split_ifs with hn
  · exact .int _
  · exact .uint (Nat.lt_of_not_le hn)

theorem mem_sortWritten {entries : List (Value × Value)} {e : Value × Value} :
    e ∈ sortWritten (writtenEntries entries) ↔ ∃ e' ∈ entries, e = (written e'.1, written e'.2) := by
  rw [sortWritten, (mergeSort_perm _ _).mem_iff, writtenEntries_eq, mem_map]
  simp only [eq_comm]

theorem written_ne_map (h : ∀ es, v ≠ .map es) : ∀ es, written v ≠ .map es := by
  intro es heq
  cases v with
  | map entries => exact h entries rfl
  | uint n =>
    rw [written, unsigned] at heq
    split_ifs at heq
  | _ => cases heq

theorem canonical_written (h : Sendable v) : Canonical (written v) := by
  induction h with
  | uint n => exact canonical_unsigned n
  | @array items hlen hitems ih =>
    rw [written, writtenItems_eq]
    refine .array (by rwa [length_map]) fun u hu => ?_
    obtain ⟨u, hmem, rfl⟩ := mem_map.mp hu
    exact ih u hmem
  | @map entries hlen hkeys hmaps hbytes hdistinct hvalues ihkeys ihvalues =>
    have hlength : (sortWritten (writtenEntries entries)).length = entries.length := by
      rw [sortWritten, length_mergeSort, writtenEntries_eq, length_map]
    refine .map (hlength ▸ hlen) (fun e he => ?_) (fun e he => ?_) fun e he => ?_
    all_goals obtain ⟨e, hmem, rfl⟩ := mem_sortWritten.mp he
    · exact ihkeys e hmem
    · exact written_ne_map (hmaps e hmem)
    · exact ihvalues e hmem
  | _ => constructor <;> assumption

theorem hasBinKey_unsigned (n : UInt64) : hasBinKey (unsigned n) = false := by
  rw [unsigned]
  split_ifs
  · rfl
  · rfl

theorem isBin_written : (written v).isBin = v.isBin := by
  cases v with
  | uint n =>
    rw [written, unsigned]
    split_ifs
    · rfl
    · rfl
  | _ => rfl

theorem hasBinKey_written (h : Sendable v) : hasBinKey (written v) = false := by
  induction h with
  | uint n => exact hasBinKey_unsigned n
  | @array items hlen hitems ih =>
    rw [written, hasBinKey, hasBinKeyItems_eq_false, writtenItems_eq]
    intro u hu
    obtain ⟨u, hmem, rfl⟩ := mem_map.mp hu
    exact ih u hmem
  | @map entries hlen hkeys hmaps hbytes hdistinct hvalues ihkeys ihvalues =>
    rw [written, hasBinKey, hasBinKeyEntries_eq_false]
    intro e he
    obtain ⟨e, hmem, rfl⟩ := mem_sortWritten.mp he
    exact ⟨⟨isBin_written.trans (hbytes e hmem), ihkeys e hmem⟩, ihvalues e hmem⟩
  | _ => rfl

theorem pairwise_sortEntries (entries : List (Bytes × Bytes)) :
    (sortEntries entries).Pairwise fun a b => decide (a.1 ≤ b.1) = true := by
  refine pairwise_mergeSort (fun a b c hab hbc => ?_) (fun a b => ?_) entries
  · exact decide_eq_true (List.le_trans (of_decide_eq_true hab) (of_decide_eq_true hbc))
  · rw [Bool.or_eq_true]
    exact (List.le_total a.1 b.1).imp decide_eq_true decide_eq_true

theorem sortEntries_perm {as bs : List (Bytes × Bytes)} (hperm : as.Perm bs) (hnodup : (bs.map Prod.fst).Nodup) :
    sortEntries as = sortEntries bs := by
  have hsorted : (sortEntries as).Perm (sortEntries bs) :=
    (mergeSort_perm as _).trans (hperm.trans (mergeSort_perm bs _).symm)
  have hmem : ∀ {a}, a ∈ sortEntries bs → a ∈ bs := (mergeSort_perm bs _).mem_iff.mp
  refine hsorted.eq_of_pairwise (fun a b ha hb hab hba => ?_) (pairwise_sortEntries as) (pairwise_sortEntries bs)
  have hkey : a.1 = b.1 := List.le_antisymm (of_decide_eq_true hab) (of_decide_eq_true hba)
  exact inj_on_of_nodup_map hnodup (hmem (hsorted.mem_iff.mp ha)) (hmem hb) hkey

theorem pack_ofValue {visit : List Nat → Visit} (path : List Nat) (h : Sendable v) :
    (GoValue.ofValue v).pack visit true path = pack false (written v) := by
  induction h generalizing path with
  | uint n =>
    simp only [GoValue.ofValue]
    exact (pack_unsigned n).symm
  | @array items hlen hitems ih =>
    have hpack : ∀ i : Fin items.length,
        (GoValue.ofValue items[i]).pack visit true (i :: path) = pack false (written items[i]) :=
      fun i => ih _ (getElem_mem _) _
    simp only [GoValue.ofValue, GoValue.pack, hpack]
    rw [written, writtenItems_eq, pack, packItems_eq, length_map, flatMap_map, flatMap_def, ← ofFn_getElem_eq_map]
    rfl
  | @map entries hlen hkeys hmaps hbytes hdistinct hvalues ihkeys ihvalues =>
    have hpack : ∀ i : Fin entries.length, ((GoValue.ofValue entries[i].1).pack visit true (0 :: i :: path),
        (GoValue.ofValue entries[i].2).pack visit true (1 :: i :: path)) =
          (pack false (written entries[i].1), pack false (written entries[i].2)) :=
      fun i => Prod.ext (ihkeys _ (getElem_mem _) _) (ihvalues _ (getElem_mem _) _)
    have hencoded : (ofFn fun i : Fin entries.length =>
        (pack false (written entries[i].1), pack false (written entries[i].2))) =
          (writtenEntries entries).map fun e => (pack false e.1, pack false e.2) := by
      rw [writtenEntries_eq, map_map, ← ofFn_getElem_eq_map]
      rfl
    have hkeys : (((writtenEntries entries).map fun e => (pack false e.1, pack false e.2)).map Prod.fst).Nodup := by
      rw [writtenEntries_eq, map_map, map_map]
      exact hdistinct
    have hsorted : sortEntries ((writtenEntries entries).map fun e => (pack false e.1, pack false e.2)) =
        (sortWritten (writtenEntries entries)).map fun e => (pack false e.1, pack false e.2) := by
      rw [sortWritten, sortEntries]
      symm
      apply map_mergeSort
      exact fun _ _ _ _ => rfl
    have hlength : (sortWritten (writtenEntries entries)).length = entries.length := by
      rw [sortWritten, length_mergeSort, writtenEntries_eq, length_map]
    simp only [GoValue.ofValue, GoValue.pack, hpack, if_true]
    rw [hencoded, sortEntries_perm ((visit path).perm _) hkeys, hsorted, written, pack, packEntries_eq, hlength,
      if_neg Bool.false_ne_true]
  | _ => simp only [GoValue.ofValue]; rfl

theorem packSorted_eq {visit : List Nat → Visit} (h : Sendable v) : packSorted visit v = pack false (written v) :=
  pack_ofValue [] h

namespace GoValue

/-- A condition holds of every Go map of the value. It is told whether the flag reaches the map. -/
def Maps (cond : Bool → (n : Nat) → (Fin n → GoValue) → Prop) (sorted : Bool) : GoValue → Prop
  | .scalar _ => True
  | .array _ items => ∀ i, (items i).Maps cond sorted
  | .goMap n keys values => cond sorted n keys ∧ ∀ i, (keys i).Maps cond sorted ∧ (values i).Maps cond sorted
  | .orderedMap _ keys values => ∀ i, (keys i).Maps cond false ∧ (values i).Maps cond false

/-- The keys are distinct on the wire, however the Go maps in them are visited. -/
def Distinct (sorted : Bool) (n : Nat) (keys : Fin n → GoValue) : Prop :=
  ∀ visit path, (ofFn fun i => (keys i).pack visit sorted (0 :: i :: path)).Nodup

/-- The flag reaches the Go map, or there is nothing to sort. -/
def Reached (sorted : Bool) (n : Nat) (_ : Fin n → GoValue) : Prop := sorted = true ∨ n ≤ 1

variable {sorted : Bool} {path : List Nat}

theorem visited_eq {es : List (Bytes × Bytes)} (hkeys : (es.map Prod.fst).Nodup)
    (h : sorted = true ∨ es.length ≤ 1) (v : Visit) :
    (if sorted then sortEntries (v.order es) else v.order es) = if sorted then sortEntries es else es := by
  cases sorted with
  | true => exact sortEntries_perm (v.perm es) hkeys
  | false =>
    match es, h.resolve_left Bool.false_ne_true with
    | [], _ => exact (v.perm []).eq_nil
    | [e], _ => exact perm_singleton.mp (v.perm [e])

theorem pack_eq {visit visit' : List Nat → Visit} (v : GoValue) {path' : List Nat}
    (hdistinct : v.Maps Distinct sorted) (hreached : v.Maps Reached sorted) :
    v.pack visit sorted path = v.pack visit' sorted path' := by
  induction v generalizing sorted path path' with
  | scalar v => rfl
  | array n items ih =>
    have hitems : ∀ i : Fin n, (items i).pack visit sorted (i :: path) = (items i).pack visit' sorted (i :: path') :=
      fun i => ih i (hdistinct i) (hreached i)
    simp only [pack, hitems]
  | goMap n keys values ihkeys ihvalues =>
    obtain ⟨hnodup, hdistinct⟩ := hdistinct
    obtain ⟨hfew, hreached⟩ := hreached
    have hentries : ∀ i : Fin n,
        ((keys i).pack visit sorted (0 :: i :: path), (values i).pack visit sorted (1 :: i :: path)) =
          ((keys i).pack visit' sorted (0 :: i :: path'), (values i).pack visit' sorted (1 :: i :: path')) :=
      fun i => Prod.ext (ihkeys i (hdistinct i).1 (hreached i).1) (ihvalues i (hdistinct i).2 (hreached i).2)
    simp only [pack, hentries]
    rw [visited_eq, visited_eq]
    all_goals first | rwa [length_ofFn] | rw [map_ofFn]; exact hnodup visit' path'
  | orderedMap n keys values ihkeys ihvalues =>
    have hentries : ∀ i : Fin n,
        (keys i).pack visit false (0 :: i :: path) ++ (values i).pack visit false (1 :: i :: path) =
          (keys i).pack visit' false (0 :: i :: path') ++ (values i).pack visit' false (1 :: i :: path') :=
      fun i => congrArg₂ _ (ihkeys i (hdistinct i).1 (hreached i).1) (ihvalues i (hdistinct i).2 (hreached i).2)
    simp only [pack, hentries]

/-! ### What is packed can be told apart -/

/-- A reader knows where the bytes end. -/
def Framed (s : Bytes) : Prop := ∃ w, ∀ fuel, s.length ≤ fuel → Reads (unpackOrderedValue pure fuel) s w

theorem Framed.unique {s t rest rest' : Bytes} (hs : Framed s) (ht : Framed t) (h : s ++ rest = t ++ rest') :
    s = t ∧ rest = rest' := by
  obtain ⟨w, hw⟩ := hs
  obtain ⟨w', hw'⟩ := ht
  have hread := hw _ (Nat.le_max_left s.length t.length) rest
  rw [h, hw' _ (Nat.le_max_right s.length t.length) rest'] at hread
  obtain ⟨-, rfl⟩ := Prod.mk.inj (Except.ok.inj hread)
  exact ⟨append_cancel_right h, rfl⟩

theorem Framed.length_pos {s : Bytes} (h : Framed s) : 0 < s.length := by
  obtain ⟨w, hw⟩ := h
  exact Reads.ordered_length_pos (hw _ le_rfl)

/-- The scalars are scalars, and lengths have room in their headers. -/
def Sized : GoValue → Prop
  | .scalar v => Sendable v ∧ v.IsLeaf
  | .array n items => n < 2 ^ 32 ∧ ∀ i, (items i).Sized
  | .goMap n keys values | .orderedMap n keys values => n < 2 ^ 32 ∧ ∀ i, (keys i).Sized ∧ (values i).Sized

variable (visit : List Nat → Visit)

def straight : List Nat → Visit := fun _ => ⟨fun entries => entries, fun _ => .refl _⟩

section

variable {n : Nat} {keys values : Fin n → GoValue}

end

namespace Sample

end Sample

end GoValue

end Reticulum.Msgpack
