import Reticulum.Ifac
import Reticulum.Theorems.Packet

/-! A frame with an access code is accepted by an interface with the same configuration, and is read back. -/

namespace Reticulum

open List Option

def maskFrom (mask : Bytes) (n : Nat) (data : Bytes) : Bytes := data.mapIdx fun i b => b ^^^ mask.getD (i + n) 0

@[simp] theorem length_maskFrom (mask : Bytes) (n : Nat) (data : Bytes) :
    (maskFrom mask n data).length = data.length := by
  rw [maskFrom, length_mapIdx]

theorem xor_xor_self (a b : UInt8) : a ^^^ b ^^^ b = a := by
  rw [UInt8.xor_assoc, UInt8.xor_self, UInt8.xor_zero]

theorem maskFrom_maskFrom (mask : Bytes) (n : Nat) (data : Bytes) : maskFrom mask n (maskFrom mask n data) = data := by
  apply ext_getElem (by simp)
  intro i hi _
  simp only [maskFrom, getElem_mapIdx]
  exact xor_xor_self _ _

theorem mapIdx_eq_self {f : Nat → UInt8 → UInt8} {data : Bytes} (h : ∀ i < data.length, ∀ b, f i b = b) :
    data.mapIdx f = data := by
  apply ext_getElem (by simp)
  intro i _ hi
  rw [getElem_mapIdx, h i hi]

theorem unflag (f m : UInt8) (h : f &&& 0x80 = 0) : ((((f ||| 0x80) ^^^ m) ||| 0x80) ^^^ m) &&& 0x7f = f := by
  have hor : ∀ x : UInt8, (x ||| 0x80) &&& 0x7f = x &&& 0x7f := forall_uint8 (by decide +kernel)
  have hlow : ∀ x : UInt8, x &&& 0x80 = 0 → x &&& 0x7f = x := forall_uint8 (by decide +kernel)
  have hxor : ∀ x y : UInt8, (x ^^^ y) &&& 0x7f = (x &&& 0x7f) ^^^ (y &&& 0x7f) := fun x y => by
    apply UInt8.toNat_inj.mp
    simp only [UInt8.toNat_and, UInt8.toNat_xor, Nat.and_xor_distrib_right]
  rw [hxor, hor, hxor, hor, xor_xor_self, hlow f h]

theorem flagged (x : UInt8) : (x ||| 0x80) &&& 0x80 = 0x80 := by
  revert x
  exact forall_uint8 (by decide +kernel)

namespace Ifac

variable (ifac : Ifac) {data : Bytes}

def code (data : Bytes) : Bytes := (ifac.sign data).drop ((ifac.sign data).length - ifac.size)

variable (data : Bytes)

theorem length_code : (ifac.code data).length = ifac.size := by
  have hle : ifac.size ≤ 64 := ifac.le
  rw [code, length_drop, ifac.length_sign]
  omega

theorem code_ne_nil : ifac.code data ≠ [] := by
  intro h
  have hlen := ifac.length_code data
  rw [h] at hlen
  exact absurd ifac.pos (by rw [← hlen]; exact Nat.lt_irrefl _)

/-- A frame with its code, masked apart from the code. -/
def sealed (mask : Bytes) (flags hops : UInt8) (rest : Bytes) : Bytes :=
  (((flags ||| 0x80) ^^^ mask.getD 0 0) ||| 0x80) :: (hops ^^^ mask.getD 1 0) ::
    (ifac.code (flags :: hops :: rest) ++ maskFrom mask (2 + ifac.size) rest)

theorem not_sign_lt : ¬(ifac.sign data).length < ifac.size := by
  rw [ifac.length_sign]
  exact Nat.not_lt.mpr ifac.le

variable {flags hops : UInt8} {rest mask : Bytes}

theorem applyIfacOutbound_cons (hrest : rest ≠ [])
    (hmask : hkdf (2 + rest.length + ifac.size) (ifac.code (flags :: hops :: rest)) ifac.key [] = some mask) :
    applyIfacOutbound (some ifac) (flags :: hops :: rest) = some (ifac.sealed mask flags hops rest) := by
  have hlen : (flags :: hops :: rest).length = 2 + rest.length := by
    simp only [length_cons]
    omega
  have hpos := length_pos_iff.mpr hrest
  have hcode := ifac.length_code (flags :: hops :: rest)
  rw [← hlen] at hmask
  unfold applyIfacOutbound
  simp only
  rw [if_neg (by omega), if_neg (ifac.not_sign_lt _), ← code, hmask]
  simp only [mapIdx_cons, mapIdx_append, hcode]
  congr 4
  · exact mapIdx_eq_self fun i hi b => by
      rw [if_neg (by omega), if_neg (by omega)]
  · apply ext_getElem (by simp)
    intro i _ _
    simp only [maskFrom, getElem_mapIdx]
    rw [if_neg (by omega), if_pos (by omega)]
    congr 2
    omega

theorem length_sealed (mask : Bytes) (flags hops : UInt8) (rest : Bytes) :
    (ifac.sealed mask flags hops rest).length = 2 + rest.length + ifac.size := by
  simp only [sealed, length_cons, length_append, length_code, length_maskFrom]
  omega

theorem unmask_sealed (hflags : flags &&& 0x80 = 0) :
    ifac.unmask mask (ifac.sealed mask flags hops rest) = flags :: hops :: rest := by
  have hcode := ifac.length_code (flags :: hops :: rest)
  have hunmask : (ifac.sealed mask flags hops rest).mapIdx
      (fun i b => if i ≤ 1 ∨ ifac.size + 1 < i then b ^^^ mask.getD i 0 else b) =
      ((((flags ||| 0x80) ^^^ mask.getD 0 0) ||| 0x80) ^^^ mask.getD 0 0) :: hops ::
        (ifac.code (flags :: hops :: rest) ++ rest) := by
    simp only [sealed, mapIdx_cons, mapIdx_append, hcode]
    congr 1
    rw [if_pos (by omega), xor_xor_self]
    congr 2
    · exact mapIdx_eq_self fun i hi b => if_neg (by omega)
    · conv_rhs => rw [← maskFrom_maskFrom mask (2 + ifac.size) rest]
      apply ext_getElem (by simp)
      intro i _ _
      simp only [maskFrom, getElem_mapIdx]
      rw [if_pos (by omega)]
      congr 2
      omega
  rw [unmask, hunmask]
  show _ :: hops :: _ = _
  rw [getD_cons_zero, unflag flags _ hflags, Nat.add_comm 2, drop_succ_cons, drop_succ_cons,
    drop_left' hcode]

theorem applyIfacInbound_sealed (hrest : rest ≠ []) (hflags : flags &&& 0x80 = 0)
    (hmask : hkdf (2 + rest.length + ifac.size) (ifac.code (flags :: hops :: rest)) ifac.key [] = some mask) :
    applyIfacInbound (some ifac) (ifac.sealed mask flags hops rest) = some (flags :: hops :: rest) := by
  have hpos := length_pos_iff.mpr hrest
  have hlen := ifac.length_sealed mask flags hops rest
  have htake : ((ifac.sealed mask flags hops rest).drop 2).take ifac.size = ifac.code (flags :: hops :: rest) :=
    take_left' (ifac.length_code _)
  have hflag : (ifac.sealed mask flags hops rest).getD 0 0 &&& 0x80 = 0x80 := flagged _
  unfold applyIfacInbound
  simp only [htake, hlen, hmask, ifac.unmask_sealed hflags]
  rw [if_neg (by omega), if_neg (not_not.mpr hflag), if_neg (by omega), if_neg (ifac.not_sign_lt _)]
  exact if_neg (not_not.mpr rfl)

end Ifac

variable {ifac : Option Ifac} {frame : Bytes}

def Sealable (frame : Bytes) : Prop := ∃ flags hops rest, frame = flags :: hops :: rest ∧ rest ≠ [] ∧ flags &&& 0x80 = 0

theorem Sealable.outbound (h : Sealable frame) (ifac : Option Ifac) :
    ∃ bytes, applyIfacOutbound ifac frame = some bytes ∧ applyIfacInbound ifac bytes = some frame ∧
      (ifac.isSome → bytes ≠ frame) := by
  obtain ⟨flags, hops, rest, rfl, hrest, hflags⟩ := h
  cases ifac with
  | none =>
    have hpos := length_pos_iff.mpr hrest
    refine ⟨_, rfl, ?_, nofun⟩
    unfold applyIfacInbound
    simp only
    rw [if_neg (by simp only [length_cons]; omega), if_neg]
    rw [getD_cons_zero, hflags]
    decide
  | some ifac =>
    obtain ⟨mask, hmask⟩ : ∃ mask, hkdf (2 + rest.length + ifac.size) (ifac.code (flags :: hops :: rest)) ifac.key [] =
        some mask := by
      rw [hkdf, if_neg (by omega), if_neg (ifac.code_ne_nil _)]
      exact ⟨_, rfl⟩
    refine ⟨_, ifac.applyIfacOutbound_cons hrest hmask, ifac.applyIfacInbound_sealed hrest hflags hmask, fun _ heq => ?_⟩
    have hlen := congrArg length heq
    have hpos := ifac.pos
    rw [ifac.length_sealed, length_cons, length_cons] at hlen
    omega

theorem sealable_iff : Sealable frame ↔ 2 < frame.length ∧ frame.getD 0 0 &&& 0x80 = 0 := by
  constructor
  · rintro ⟨flags, hops, rest, rfl, hrest, hflags⟩
    have hpos := length_pos_iff.mpr hrest
    exact ⟨by simp only [length_cons]; omega, hflags⟩
  · rintro ⟨hlen, hflags⟩
    rcases frame with _ | ⟨flags, _ | ⟨hops, _ | ⟨b, rest⟩⟩⟩
    · simp at hlen
    · simp at hlen
    · simp at hlen
    · exact ⟨flags, hops, b :: rest, rfl, cons_ne_nil _ _, hflags⟩

namespace Ifac

theorem code_of_inbound {ifac : Ifac} {bytes : Bytes} (h : applyIfacInbound (some ifac) bytes = some frame) :
    (bytes.drop 2).take ifac.size = ifac.code frame := by
  unfold applyIfacInbound at h
  dsimp only at h
  obtain ⟨-, h⟩ := ite_none_left_eq_some.mp h
  obtain ⟨-, h⟩ := ite_none_left_eq_some.mp h
  obtain ⟨-, h⟩ := ite_none_left_eq_some.mp h
  split at h
  · cases h
  · obtain ⟨-, h⟩ := ite_none_left_eq_some.mp h
    obtain ⟨hcode, h⟩ := ite_none_left_eq_some.mp h
    rw [← some.inj h]
    exact not_not.mp hcode

/-- What is sealed is read back, and what is accepted carries the end of the signature of what is read. -/
theorem inbound_outbound (ifac : Ifac) : (∀ frame : Bytes, 2 < frame.length → frame.getD 0 0 &&& 0x80 = 0 →
      ∃ bytes, applyIfacOutbound (some ifac) frame = some bytes ∧ applyIfacInbound (some ifac) bytes = some frame) ∧
    ∀ bytes frame : Bytes, applyIfacInbound (some ifac) bytes = some frame →
      (bytes.drop 2).take ifac.size = (ifac.sign frame).drop ((ifac.sign frame).length - ifac.size) := by
  constructor
  · intro frame hlen hflags
    obtain ⟨bytes, hout, hin, -⟩ := (sealable_iff.mpr ⟨hlen, hflags⟩).outbound (some ifac)
    exact ⟨bytes, hout, hin⟩
  · intro bytes frame h
    exact code_of_inbound h

end Ifac

end Reticulum
