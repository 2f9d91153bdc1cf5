import Reticulum.Theorems.Resource.Status

/-! # The map hashes that a receiver knows -/

namespace Reticulum

open List Transitions

namespace Resource

/-- The entries of the hashmap that are set are those below the height. -/
structure Known (n : Nat) (m : List (Option Bytes) × Nat) : Prop where
  length : m.1.length = n
  isSome : ∀ i, m.1[i]?.join.isSome = true ↔ i < m.2

/-- Where an entry of an update goes. -/
def position (segment : Int64) (i : Nat) : Int := (Int64.ofNat i + segment * Int64.ofNat hashmapMaxLen).toInt

-- A position that overflows is negative.
theorem position_succ_le (segment : Int64) (i : Nat) : position segment (i + 1) ≤ position segment i + 1 := by
  have hle := (Int64.ofNat i + segment * Int64.ofNat hashmapMaxLen).le_toInt
  rw [position, position, Int64.ofNat_add, Int64.add_assoc, Int64.add_comm (Int64.ofNat 1), ← Int64.add_assoc,
    Int64.toInt_add, show (Int64.ofNat 1).toInt = 1 from rfl, Int.bmod_def]
  omega

variable {z : Bzip2} {r r₀ r' : Resource} {op : ResourceOperation} {packet : Bytes} {callback progressCallback : Bool}
  {n k height height' : Nat} {hashmap : List (Option Bytes)}

theorem Known.set (h : Known n (hashmap, height)) (hle : k ≤ height) (hlt : k < hashmap.length) (hash : Bytes)
    (hheight : height' = if hashmap[k]?.join.isNone then height + 1 else height) :
    k < height' ∧ Known n (hashmap.set k (some hash), height') := by
  have hk : _ ↔ k < height := h.isSome k
  obtain rfl : height' = max height (k + 1) := by
    cases hset : hashmap[k]?.join <;> simp [hset] at hk hheight <;> omega
  refine ⟨by omega, length_set.trans h.length, fun i => ?_⟩
  rw [getElem?_set]
  split_ifs with heq
  · exact iff_of_true rfl (by omega)
  · exact (h.isSome i).trans (by dsimp only; omega)

theorem Known.extendHashmap {segment : Int64} (hashes : List Bytes) : ∀ {i : Nat} {m}, Known n m →
    position segment i ≤ m.2 ∨ n ≤ position segment i → Known n (extendHashmap segment i hashes m) := by
  induction hashes with
  | nil => exact fun h _ => h
  | cons hash hashes ih =>
    rintro i ⟨hashmap, height⟩ h hle
    have hlength : hashmap.length = n := h.length
    have hsucc := position_succ_le segment i
    rw [Resource.extendHashmap, ← position]
    split
    · exact h
    · obtain ⟨hbelow, hknown⟩ := h.set (k := (position segment i).toNat) (by omega) (by omega) hash rfl
      exact (ih hknown (i := i + 1) (.inl (by dsimp only; omega)) :)

def names (r : Resource) : List (Option Bytes) × Nat := (r.hashmap, r.hashmapHeight)

theorem names_requestNext (sent : Bool) : (r.requestNext sent).resource.names = r.names := by
  obtain ⟨⟨outstanding, waiting, hresource⟩, -⟩ := r.requestNext_frame sent
  rw [hresource]
  rfl

theorem names_receivePart (data : Bytes) : (r.receivePart data).resource.names = r.names := by
  rw [receivePart]
  split_ifs
  · rfl
  · dsimp only [afterPart, growWindow, storePart]
    cases missingPart _ data <;> (split_ifs <;> rfl)

/-- A receiver that fetches: no awaited update starts between the known map hashes and the hashmap's end. -/
def inOrder (r : Resource) : ResourceOperation → Bool
  | .receivePart _ | .requestNext _ => true
  | .hashmapUpdate plaintext _ => !r.waitingForHmu || (parseHmu plaintext).toOption.all fun update =>
      position update.1 0 ≤ r.hashmapHeight ∨ r.hashmap.length ≤ position update.1 0
  | _ => false

theorem Known.step (h : Known n r.names) (hin : r.inOrder op = true) (hstep : step z r op = some r') :
    Known n r'.names := by
  cases hstep
  cases op with
  | receivePart data => exact (names_receivePart data).symm ▸ h
  | requestNext sent => exact (names_requestNext sent).symm ▸ h
  | hashmapUpdate plaintext sent =>
    simp only [perform, hashmapUpdate]
    split_ifs with hignored
    · exact h
    · exact h
    · cases hparse : parseHmu plaintext with
      | error e => exact h
      | ok update =>
        have hle : position update.1 0 ≤ r.hashmapHeight ∨ n ≤ position update.1 0 := by
          simpa [inOrder, hparse, Except.toOption, not_not.mp (not_or.mp hignored).2, ← h.length, names] using hin
        have hknown := h.extendHashmap (mapHashes update.2) hle
        dsimp only [applyHmu, cancelLocked]
        split_ifs
        · exact hknown
        · exact hknown
        · exact (names_requestNext sent).symm ▸ hknown
  | _ => cases hin

theorem known_accept (h : accept packet callback progressCallback = some r) : Known r.parts.length r.names := by
  obtain ⟨adv, -, rfl⟩ := Option.map_eq_some_iff.mp h
  simp only [names, ResourceAdvertisement.resource]
  generalize (mapHashes adv.m).take adv.n.toInt.toNat = known
  refine ⟨by rw [length_map], fun i => ?_⟩
  rw [getElem?_append, length_map, getElem?_replicate]
  split_ifs with hi <;> simp [hi]

/-- The map hashes that the receiver knows are the first ones, and their number is the height. -/
theorem hashmap_known {ops : List ResourceOperation} (haccept : accept packet callback progressCallback = some r₀)
    (hin : Keeps (step z) (inOrder · ·) r₀ ops) (hrun : run (step z) r₀ ops = some r) :
    (∀ i, r.hashmap[i]?.join.isSome = true ↔ i < r.hashmapHeight) ∧ r.hashmapHeight ≤ r₀.parts.length := by
  have hknown := run_induction (fun r => Known r₀.parts.length r.names) (fun _ _ _ hin h => h.step hin) ops
    (known_accept haccept) hin hrun
  refine ⟨hknown.isSome, Nat.not_lt.mp fun hlt => ?_⟩
  have hset := (hknown.isSome r₀.parts.length).mpr hlt
  rw [← hknown.length, getElem?_eq_none le_rfl] at hset
  cases hset

end Resource

namespace Sample

open Resource

/-- An advertisement that tells the first of 80 map hashes. -/
def advertised : Bytes :=
  ResourceAdvertisement.pack { n := 80, m := [0, 0, 0, 0] : ResourceAdvertisement }.entries

def update (segment : UInt8) : List ResourceOperation :=
  [.requestNext true, .hashmapUpdate (replicate 32 0 ++ [0x92, segment, 0xc4, 4, 0, 0, 0, 1]) true]

theorem first_segment_known : ∃ r₀ ∈ accept advertised false false,
    ∃ r, run (step bzip2) r₀ (update 0) = some r ∧ r.hashmapHeight ≤ r₀.parts.length := by
  obtain ⟨r₀, h₀, hin⟩ : ∃ r₀ ∈ accept advertised false false,
      Keeps (step bzip2) (inOrder · ·) r₀ (update 0) := by decide +kernel
  exact ⟨r₀, h₀, _, rfl, (hashmap_known h₀ hin rfl).2⟩

theorem second_segment_leaves_gap : ∃ r₀ ∈ accept advertised false false, ∃ r ∈ run (step bzip2) r₀ (update 1),
    r.hashmapHeight = 2 ∧ r.hashmap[1]?.join = none ∧ r.hashmap[74]?.join.isSome = true := by
  decide +kernel

end Sample

end Reticulum
