import Reticulum.Generations
import Reticulum.PacketHashes

/-! # How long a packet hash is remembered

The two maps are sets in two generations: each call is an operation on their keys. -/

namespace Reticulum.PacketHashes

open Generations

variable {s : PacketHashes} {packetHash : Bytes}

def generations (s : PacketHashes) : Generations Bytes where
  current := s.packetHashes.keys.toFinset
  previous := s.packetHashesPrev.keys.toFinset

def Call.operation : Call → Generations.Operation Bytes
  | .seenOrRemember packetHash _ => .remember packetHash
  | .forget packetHash => .forget packetHash

theorem mem_generations : packetHash ∈ s.generations ↔ s.packetHashSeen packetHash = true := by
  rw [mem_iff, packetHashSeen, Bool.or_eq_true, decide_eq_true_eq, decide_eq_true_eq]
  exact or_congr List.mem_toFinset List.mem_toFinset

variable (table : Table Int)

theorem card_keys : table.keys.toFinset.card = table.keys.length :=
  List.toFinset_card_of_nodup table.keys_nodup

theorem keys_erase_toFinset (packetHash : Bytes) :
    (table.erase packetHash).keys.toFinset = table.keys.toFinset.erase packetHash := by
  ext x
  rw [List.mem_toFinset, ← AList.mem_keys, AList.mem_erase, Finset.mem_erase, List.mem_toFinset, AList.mem_keys]

theorem keys_insert_toFinset (packetHash : Bytes) (now : Int) :
    (table.insert packetHash now).keys.toFinset = insert packetHash table.keys.toFinset := by
  ext x
  rw [List.mem_toFinset, ← AList.mem_keys, AList.mem_insert, Finset.mem_insert, List.mem_toFinset, AList.mem_keys]

section

variable (hrotate : 1 ≤ s.packetHashRotateAt)
include hrotate

theorem ensureState_eq : s.ensureState = s := by
  rw [ensureState, if_neg (Int.not_le.mpr hrotate)]

variable (packetHash : Bytes)

theorem seenOrRememberPacketHash_cases (now : Int) :
    s.packetHashSeen packetHash = true ∧ s.seenOrRememberPacketHash packetHash now = (true, s) ∨
      s.packetHashSeen packetHash = false ∧ s.packetHashRotateAt ≤ s.packetHashes.keys.length ∧
        s.seenOrRememberPacketHash packetHash now =
          (false, { s with packetHashesPrev := s.packetHashes, packetHashes := AList.insert packetHash now ∅ }) ∨
      s.packetHashSeen packetHash = false ∧ s.packetHashes.keys.length < s.packetHashRotateAt ∧
        s.seenOrRememberPacketHash packetHash now =
          (false, { s with packetHashes := s.packetHashes.insert packetHash now }) := by
  unfold seenOrRememberPacketHash packetHashSeen
  rw [ensureState_eq hrotate]
  dsimp only
  split
  · next h => exact .inl ⟨by simp [h], rfl⟩
  · next h =>
    split
    · next h => exact .inl ⟨by simp [h], rfl⟩
    · next h' =>
      have hseen : (decide (packetHash ∈ s.packetHashes) || decide (packetHash ∈ s.packetHashesPrev)) = false := by
        simp [h, h']
      split
      · next hfull => exact .inr (.inl ⟨hseen, hfull, rfl⟩)
      · next hfull => exact .inr (.inr ⟨hseen, Int.not_le.mp hfull, rfl⟩)

theorem seenOrRememberPacketHash_fst (now : Int) :
    (s.seenOrRememberPacketHash packetHash now).1 = s.packetHashSeen packetHash := by
  obtain ⟨hseen, heq⟩ | ⟨hseen, -, heq⟩ | ⟨hseen, -, heq⟩ := seenOrRememberPacketHash_cases hrotate packetHash now <;>
    rw [heq, hseen]

theorem generations_remember (now : Int) :
    (s.seenOrRememberPacketHash packetHash now).2.generations =
      s.generations.remember s.packetHashRotateAt.toNat packetHash := by
  have hcard : s.generations.current.card = s.packetHashes.keys.length := card_keys s.packetHashes
  rw [remember]
  obtain ⟨hseen, heq⟩ | ⟨hseen, hfull, heq⟩ | ⟨hseen, hroom, heq⟩ :=
    seenOrRememberPacketHash_cases hrotate packetHash now
  · rw [if_pos (mem_generations.mpr hseen), heq]
  · have hnotMem : packetHash ∉ s.generations := fun hmem => by simp [mem_generations.mp hmem] at hseen
    rw [if_neg hnotMem, if_pos (hcard ▸ Int.toNat_le.mpr hfull), heq, generations, keys_insert_toFinset]
    rfl
  · have hnotMem : packetHash ∉ s.generations := fun hmem => by simp [mem_generations.mp hmem] at hseen
    have hroom : ¬ s.packetHashRotateAt.toNat ≤ s.generations.current.card := by
      rw [hcard, Int.toNat_le]
      exact Int.not_le.mpr hroom
    rw [if_neg hnotMem, if_neg hroom, heq, generations, keys_insert_toFinset]
    rfl

theorem packetHashRotateAt_step (call : Call) : (s.step call).packetHashRotateAt = s.packetHashRotateAt := by
  cases call with
  | seenOrRemember packetHash now =>
    rw [step]
    obtain ⟨-, heq⟩ | ⟨-, -, heq⟩ | ⟨-, -, heq⟩ := seenOrRememberPacketHash_cases hrotate packetHash now <;> rw [heq]
  | forget packetHash => rw [step, forgetPacketHash, ensureState_eq hrotate]

theorem generations_step (call : Call) :
    (s.step call).generations = s.generations.apply s.packetHashRotateAt.toNat call.operation := by
  cases call with
  | seenOrRemember packetHash now => exact generations_remember hrotate packetHash now
  | forget packetHash =>
    rw [step, forgetPacketHash, ensureState_eq hrotate]
    simp only [generations, keys_erase_toFinset]
    rfl

variable (calls : List Call)

theorem run_eq : (s.run calls).packetHashRotateAt = s.packetHashRotateAt ∧
    (s.run calls).generations = s.generations.run s.packetHashRotateAt.toNat (calls.map Call.operation) := by
  induction calls generalizing s with
  | nil => exact ⟨rfl, rfl⟩
  | cons call calls ih =>
    have hstep := packetHashRotateAt_step hrotate call
    obtain ⟨hat, hrun⟩ := ih (s := s.step call) (hstep ▸ hrotate)
    rw [hstep, generations_step hrotate] at hrun
    exact ⟨hat.trans hstep, hrun⟩

theorem remembered_toFinset : (s.remembered calls).toFinset =
      addedAlong s.packetHashRotateAt.toNat s.generations (calls.map Call.operation) := by
  induction calls generalizing s with
  | nil => rfl
  | cons call calls ih =>
    have hstep := packetHashRotateAt_step hrotate call
    have hrest := ih (s := s.step call) (hstep ▸ hrotate)
    rw [hstep, generations_step hrotate] at hrest
    rw [List.map_cons, addedAlong, ← hrest]
    cases call with
    | seenOrRemember packetHash now =>
      rw [remembered, seenOrRememberPacketHash_fst hrotate, Call.operation, added]
      by_cases hseen : s.packetHashSeen packetHash = true
      · rw [if_pos hseen, if_pos (mem_generations.mpr hseen), Finset.empty_union]
      · rw [if_neg hseen, if_neg fun hmem => hseen (mem_generations.mp hmem), List.toFinset_cons]
        rfl
    | forget packetHash =>
      rw [remembered, Call.operation, added, Finset.empty_union]

end

theorem run_append (s : PacketHashes) (calls calls' : List Call) : s.run (calls ++ calls') = (s.run calls).run calls' :=
  List.foldl_append ..

theorem stays_of_remembered (hrotate : 1 ≤ s.packetHashRotateAt) {now : Int}
    (hnew : (s.seenOrRememberPacketHash packetHash now).1 = false) :
    Stays packetHash ∅ (s.step (.seenOrRemember packetHash now)).generations := by
  obtain ⟨-, heq⟩ | ⟨-, -, heq⟩ | ⟨-, -, heq⟩ := seenOrRememberPacketHash_cases hrotate packetHash now
  · rw [heq] at hnew
    cases hnew
  · rw [step, heq, generations, keys_insert_toFinset]
    exact .inl (Finset.mem_insert_self ..)
  · rw [step, heq, generations, keys_insert_toFinset]
    exact .inl (Finset.mem_insert_self ..)

theorem seen_of_remembered (hrotate : 1 ≤ s.packetHashRotateAt) {now : Int} {calls : List Call}
    (hnew : (s.seenOrRememberPacketHash packetHash now).1 = false) (hforget : .forget packetHash ∉ calls)
    (hfew : (((s.step (.seenOrRemember packetHash now)).remembered calls).toFinset.erase packetHash).card ≤
      s.packetHashRotateAt) : ((s.step (.seenOrRemember packetHash now)).run calls).packetHashSeen packetHash = true := by
  have hstep := packetHashRotateAt_step hrotate (.seenOrRemember packetHash now)
  have hrotate' : 1 ≤ (s.step (.seenOrRemember packetHash now)).packetHashRotateAt := hstep ▸ hrotate
  rw [remembered_toFinset hrotate', hstep] at hfew
  rw [← mem_generations, (run_eq hrotate' calls).2, hstep]
  refine (stays_of_remembered hrotate hnew).run (Finset.notMem_empty _) (fun hmem => ?_) ?_
  · obtain ⟨call, hcall, heq⟩ := List.mem_map.mp hmem
    cases call with
    | seenOrRemember => cases heq
    | forget => cases heq; exact hforget hcall
  · rw [Finset.empty_union]
    exact (Int.le_toNat (zero_le_one.trans hrotate)).mpr hfew

/-- A hash is seen until `packetHashRotateAt` others follow or it is forgotten, and no other hash is seen. -/
theorem seen_within_window {packetHashRotateAt : Int} (hrotate : 1 ≤ packetHashRotateAt) (calls : List Call) :
    (∀ before packetHash now after, calls = before ++ .seenOrRemember packetHash now :: after →
      (((empty packetHashRotateAt).run before).seenOrRememberPacketHash packetHash now).1 = false →
      .forget packetHash ∉ after →
      ((((empty packetHashRotateAt).run (before ++ [.seenOrRemember packetHash now])).remembered after).toFinset.erase
        packetHash).card ≤ packetHashRotateAt →
      ((empty packetHashRotateAt).run calls).packetHashSeen packetHash = true) ∧
    (∀ packetHash ∉ (empty packetHashRotateAt).remembered calls,
      ((empty packetHashRotateAt).run calls).packetHashSeen packetHash = false) ∧
    (∀ packetHash now, (((empty packetHashRotateAt).run calls).seenOrRememberPacketHash packetHash now).1 =
      ((empty packetHashRotateAt).run calls).packetHashSeen packetHash) ∧
    (((empty packetHashRotateAt).run calls).packetHashes.keys.length +
      ((empty packetHashRotateAt).run calls).packetHashesPrev.keys.length : Int) ≤ 2 * packetHashRotateAt := by
  have hempty : 1 ≤ (empty packetHashRotateAt).packetHashRotateAt := hrotate
  have hrun := run_eq hempty
  refine ⟨?_, fun packetHash hnew => ?_, fun packetHash now => ?_, ?_⟩
  · rintro before packetHash now after rfl hnew hforget hfew
    rw [run_append] at hfew ⊢
    exact seen_of_remembered (hrotate.trans_eq (hrun before).1.symm) hnew hforget (hfew.trans_eq (hrun before).1.symm)
  · rw [← Bool.not_eq_true, ← mem_generations, (hrun calls).2]
    intro hmem
    rw [← List.mem_toFinset, remembered_toFinset hempty] at hnew
    rcases Generations.mem_run hmem with hmem | hmem
    · exact absurd hmem (by simp [Generations.mem_iff, generations, empty])
    · exact hnew hmem
  · exact seenOrRememberPacketHash_fst (hrotate.trans_eq (hrun calls).1.symm) packetHash now
  · have hbounded : Generations.Bounded packetHashRotateAt.toNat (empty packetHashRotateAt).generations :=
      ⟨Nat.zero_le _, Nat.zero_le _⟩
    have hafter : Generations.Bounded packetHashRotateAt.toNat ((empty packetHashRotateAt).run calls).generations := by
      rw [(hrun calls).2]
      exact hbounded.run (Int.toNat_le_toNat hrotate) _
    have hcurrent := hafter.current
    have hprevious := hafter.previous
    simp only [generations, card_keys] at hcurrent hprevious
    omega

theorem seen_within_window_two :
    ((empty 2).run [.seenOrRemember [1] 0, .seenOrRemember [2] 0, .forget [2], .seenOrRemember [3] 0,
      .seenOrRemember [2] 0]).packetHashSeen [1] = true := by
  refine (seen_within_window (show (1 : Int) ≤ 2 by decide) _).1 [] [1] 0 _ rfl ?_ ?_ ?_ <;> decide +kernel

end Reticulum.PacketHashes
