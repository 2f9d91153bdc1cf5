import Reticulum.Channel
import Reticulum.ReorderBuffer

/-! The receive ring, read as a buffer of offsets from the first number of a block; `wrapPoint` is the first offset
whose number has wrapped. -/

namespace Reticulum.Channel
open ReorderBuffer

variable {M P : Type}

def offset (s q : UInt16) : Nat := (q - s).toNat

def wrapPoint (s : UInt16) : Nat := 65536 - s.toNat

theorem toNat_of_offset (s q : UInt16) : q.toNat = (s.toNat + offset s q) % 65536 := by
  have hs := s.toNat_lt
  have hq := q.toNat_lt
  simp only [offset, UInt16.toNat_sub]
  omega

theorem offset_inj {s q r : UInt16} (h : offset s q = offset s r) : q = r := by
  apply UInt16.toNat_inj.mp
  rw [toNat_of_offset s q, toNat_of_offset s r, h]

theorem offset_eq_iff {s q r : UInt16} : offset s q = offset s r ↔ q = r :=
  ⟨offset_inj, fun h => by rw [h]⟩

@[simp] theorem offset_self (s : UInt16) : offset s s = 0 := by simp [offset]

theorem offset_succ {s q : UInt16} (h : offset s q < 65535) : offset s (q + 1) = offset s q + 1 := by
  simp only [offset, UInt16.toNat_sub, UInt16.toNat_add, UInt16.toNat_one] at h ⊢
  omega

theorem eq_add_of_offset {s q : UInt16} {n : Nat} (h : offset s q = n) : q = s + UInt16.ofNat n := by
  apply UInt16.toNat_inj.mp
  rw [toNat_of_offset s q, h, UInt16.toNat_add, UInt16.toNat_ofNat']
  omega

section Window
variable {s q next : UInt16}

/-- The window check drops an old number, unless the awaited number has wrapped and the old one has not. -/
theorem invalidSequence_iff (hq : offset s q < 48) (hn : offset s next ≤ 48) : invalidSequence next q = true ↔
    offset s q < offset s next ∧ ¬(offset s q < wrapPoint s ∧ wrapPoint s ≤ offset s next) := by
  have hs := s.toNat_lt
  have h1 := toNat_of_offset s q
  have h2 := toNat_of_offset s next
  have hadd : (next + channelWindowMaxFast).toNat = (next.toNat + 48) % 65536 := by
    rw [UInt16.toNat_add]; rfl
  unfold invalidSequence wrapPoint
  simp only [UInt16.lt_iff_toNat_lt, gt_iff_lt, hadd]
  split
  · split
    · simp only [decide_eq_true_eq]
      omega
    · simp only [true_iff]
      omega
  · simp only [Bool.false_eq_true, false_iff]
    omega

theorem wrapped_difference_iff (hq : offset s q < 48) (hn : offset s next ≤ 48) :
    next - q > channelSeqMax / 2 ↔ offset s next < offset s q := by
  have h1 := toNat_of_offset s q
  have h2 := toNat_of_offset s next
  have hdiv : (channelSeqMax / 2).toNat = 32767 := by decide
  simp only [gt_iff_lt, UInt16.lt_iff_toNat_lt, hdiv, UInt16.toNat_sub]
  omega

end Window

theorem lt_iff_offset {s q r : UInt16} (hq : offset s q < 48) (hr : offset s r < 48) (h : offset s q < offset s r) :
    q < r ↔ ¬(offset s q < wrapPoint s ∧ wrapPoint s ≤ offset s r) := by
  have hs := s.toNat_lt
  have h1 := toNat_of_offset s q
  have h2 := toNat_of_offset s r
  unfold wrapPoint
  rw [UInt16.lt_iff_toNat_lt]
  omega

section Emplace
variable {next : UInt16} {env : Envelope M P} {ring ring' : List (Envelope M P)}

theorem emplaceEnvelope_sublist (h : emplaceEnvelope next env ring = some ring') :
    ring.Sublist ring' ∧ ring'.Perm (env :: ring) := by
  induction ring generalizing ring' with
  | nil =>
    cases h
    exact ⟨List.nil_sublist _, List.Perm.refl _⟩
  | cons e ring ih =>
    have tail : ∀ {r}, (emplaceEnvelope next env ring).map (e :: ·) = some r →
        (e :: ring).Sublist r ∧ r.Perm (env :: e :: ring) := by
      intro r hr
      obtain ⟨r', hr', rfl⟩ := Option.map_eq_some_iff.mp hr
      obtain ⟨hsub, hperm⟩ := ih hr'
      exact ⟨hsub.cons_cons e, (hperm.cons e).trans (List.Perm.swap env e ring)⟩
    unfold emplaceEnvelope at h
    split at h
    · cases h
    · split at h
      · split at h
        · exact tail h
        · cases h
          exact ⟨List.sublist_cons_self env (e :: ring), List.Perm.refl _⟩
      · exact tail h

theorem emplaceEnvelope_future (hd : next - env.sequence > channelSeqMax / 2)
    (hnew : ∀ e ∈ ring, e.sequence ≠ env.sequence) : emplaceEnvelope next env ring = some (ring ++ [env]) := by
  induction ring with
  | nil => rfl
  | cons e ring ih =>
    have hne : ¬env.sequence = e.sequence := fun h => hnew e List.mem_cons_self h.symm
    have htail := ih fun x hx => hnew x (List.mem_cons_of_mem e hx)
    simp [emplaceEnvelope, hne, hd, htail]

theorem emplaceEnvelope_duplicate (hd : next - env.sequence > channelSeqMax / 2)
    (hdup : ∃ e ∈ ring, e.sequence = env.sequence) : emplaceEnvelope next env ring = none := by
  induction ring with
  | nil => simp at hdup
  | cons e ring ih =>
    by_cases he : env.sequence = e.sequence
    · simp [emplaceEnvelope, he]
    · have htail : emplaceEnvelope next env ring = none := by
        apply ih
        obtain ⟨x, hx, hxe⟩ := hdup
        rcases List.mem_cons.mp hx with rfl | hx
        · exact absurd hxe.symm he
        · exact ⟨x, hx, hxe⟩
      simp [emplaceEnvelope, he, hd, htail]

theorem emplaceEnvelope_front (hd : ¬next - env.sequence > channelSeqMax / 2)
    (hfirst : ∀ e ∈ ring.head?, env.sequence < e.sequence) : emplaceEnvelope next env ring = some (env :: ring) := by
  cases ring with
  | nil => rfl
  | cons e ring =>
    have hlt : env.sequence < e.sequence := hfirst e rfl
    have hne : env.sequence ≠ e.sequence := UInt16.ne_of_lt hlt
    simp [emplaceEnvelope, hlt, hne, hd]

theorem emplaceEnvelope_behind {e : Envelope M P} (hle : ¬env.sequence < e.sequence) :
    ∀ r ∈ emplaceEnvelope next env (e :: ring), ∃ tail, r = e :: tail ∧ env ∈ tail := by
  intro r hr
  unfold emplaceEnvelope at hr
  split at hr
  · cases hr
  · obtain ⟨tail, htail, rfl⟩ := Option.map_eq_some_iff.mp hr
    exact ⟨tail, rfl, (emplaceEnvelope_sublist htail).2.mem_iff.mpr List.mem_cons_self⟩

theorem emplaceEnvelope_isSome (next : UInt16) (hnew : ∀ e ∈ ring, e.sequence ≠ env.sequence) :
    (emplaceEnvelope next env ring).isSome := by
  induction ring with
  | nil => rfl
  | cons e ring ih =>
    have hne : ¬env.sequence = e.sequence := fun h => hnew e List.mem_cons_self h.symm
    have htail := ih fun x hx => hnew x (List.mem_cons_of_mem e hx)
    unfold emplaceEnvelope
    rw [if_neg hne]
    split
    · split
      · simpa using htail
      · rfl
    · simpa using htail

end Emplace

theorem contiguous_append (next : UInt16) (ring : List (Envelope M P)) :
    (contiguous next ring).1 ++ (contiguous next ring).2.1 = ring := by
  induction ring generalizing next with
  | nil => rfl
  | cons e ring ih =>
    unfold contiguous
    split
    · simp [ih]
    · rfl

theorem contiguous_release (s next : UInt16) (ring : List (Envelope M P))
    (hring : ∀ e ∈ ring, offset s e.sequence < 48) :
    (offset s (contiguous next ring).2.2, (contiguous next ring).2.1.map fun e => offset s e.sequence) =
      release (offset s next) (ring.map fun e => offset s e.sequence) := by
  induction ring generalizing next with
  | nil => rfl
  | cons e ring ih =>
    have hlt := hring e List.mem_cons_self
    have htail := ih (next + 1) fun x hx => hring x (List.mem_cons_of_mem e hx)
    unfold contiguous
    simp only [List.map_cons, release, offset_eq_iff]
    split
    · rename_i he
      rw [he] at hlt
      rw [htail, offset_succ (by omega)]
    · rfl

end Reticulum.Channel
