import Reticulum.Lxmf.Representation
import Reticulum.Theorems.Lxmf.Stamping
import Reticulum.Theorems.Lxmf.Upload

/-! # Whether the chosen representation fits -/

namespace Reticulum

open List Option

theorem length_pkcs7Pad (data : Bytes) : (pkcs7Pad data 16).length = 16 * (data.length / 16 + 1) := by
  rw [pkcs7Pad, length_append, length_replicate]
  omega

theorem TokenCipher.length_encrypt (token : TokenCipher) (data : Bytes) :
    (token.encrypt data).length = 48 + 16 * (data.length / 16 + 1) := by
  rw [encrypt, length_append, length_append, token.mac_length, token.cbcEncrypt_length, token.iv_length,
    length_pkcs7Pad]
  omega

namespace PacketTarget

def room (target : PacketTarget) : Nat :=
  match target.type with
  | .plain => 481
  | .link => 431
  | .single | .group => 399

theorem pack_isSome (target : PacketTarget) (data : Bytes) :
    (target.pack data).isSome = true ↔ data.length ≤ target.room := by
  have hraw : ∀ flags : UInt8, ([flags, 0] ++ target.hash ++ [0] ++ target.encrypt data).length =
      19 + (target.encrypt data).length := by
    intro flags
    simp only [length_append, target.hash_length, length_cons, length_nil]
  have hpack : (target.pack data).isSome = true ↔ 19 + (target.encrypt data).length ≤ 500 := by
    rw [← hraw (packFlags .header1 false .broadcast target.type .data), pack]
    by_cases hlong : ([packFlags .header1 false .broadcast target.type .data, 0] ++ target.hash ++ [0] ++
        target.encrypt data).length > packetMTU
    · rw [if_pos hlong]
      exact iff_of_false Bool.false_ne_true (Nat.not_le.mpr hlong)
    · rw [if_neg hlong]
      exact iff_of_true rfl (Nat.le_of_not_lt hlong)
  rw [hpack, encrypt, room]
  cases target.type with
  | plain =>
    dsimp only
    omega
  | link =>
    dsimp only
    rw [target.token.length_encrypt]
    omega
  | single | group =>
    dsimp only
    rw [length_append, target.ephemeralKey_length, target.token.length_encrypt]
    omega

end PacketTarget

namespace Lxmf

/-- A packet is chosen only if it can be sent, and a resource only if a packet cannot. -/
def Route.Fits (route : Route) (p : Parcel) (representation : Representation) : Prop :=
  (representation = .packet → (route.packet p).isSome = true) ∧
    (representation = .resource → (route.packet p).isSome = false)

theorem Route.fits_iff {route : Route} {p : Parcel} {resource : Prop} [Decidable resource] :
    route.Fits p (if resource then .resource else .packet) ↔ (resource ↔ route.target.room < (route.data p).length) := by
  have hpacket : (route.packet p).isSome = true ↔ (route.data p).length ≤ route.target.room :=
    route.target.pack_isSome _
  rw [Route.Fits, hpacket, ← Bool.not_eq_true, hpacket, Nat.not_le]
  by_cases hresource : resource
  · simp [hresource]
  · simp [hresource]

namespace Route

variable {link destination : PacketTarget}

def Suits (p : Parcel) : Route → Prop
  | propagation .. => p.representation = .resource → packetMDU < p.propagationPackedLength
  | direct .. => p.packed.length ≤ packetMDU ∨ packetMDU + destinationLength < p.packed.length
  | route@(raw _ destination ..) =>
    (route.data p).length ≤ min packetMDU destination.room ∨ max packetMDU destination.room < (route.data p).length

variable {p p' : Parcel} {m : OutboundMessage} {f : PropagatedFacts}

variable {h : link.type = .link}

theorem length_data_propagation :
    ((propagation link h).data p).length = p.propagationPackedLength := by
  unfold Route.data Parcel.propagationPackedLength
  cases p.propagationPacked with
  | none | some payload => rfl

theorem room_of_link (h : link.type = .link) : link.room = packetMDU := by
  rw [PacketTarget.room, h]
  rfl

theorem room_of_destination (h : destination.type ≠ .link) : 399 ≤ destination.room := by
  unfold PacketTarget.room
  split
  · decide
  · next hlink => exact absurd hlink h
  · exact Nat.le_refl _
  · exact Nat.le_refl _

theorem packetMDU_eq : packetMDU = 431 := by decide

theorem selected_propagation : ((propagation link h).message p m).selected =
      if p.representation = .resource ∨ p.propagationPackedLength > packetMDU then .resource else .packet :=
  if_pos rfl

theorem selected_direct : ((direct link h).message p m).selected =
      if p.packed.length - destinationLength > packetMDU then .resource else .packet := by
  rfl

theorem selected_raw {method : Method} {hmethod : method ≠ .propagated} {h : destination.type ≠ .link} :
    ((raw method destination hmethod h).message p m).selected =
      if ((raw method destination hmethod h).data p).length > packetMDU then .resource else .packet := by
  have hother : ((raw method destination hmethod h).message p m).method ≠ some .propagated :=
    fun heq => hmethod (some.inj heq)
  have hlength : ((raw method destination hmethod h).data p).length =
      if method = .opportunistic ∨ method = .direct then p.packed.length - destinationLength else p.packed.length := by
    rw [Route.data]
    split
    · exact length_drop
    · rfl
  rw [hlength, OutboundMessage.selected, if_neg hother]
  simp only [Route.message, Route.method, some.injEq]
  rfl

theorem fits_selected_iff (route : Route) : route.Fits p (route.message p m).selected ↔ route.Suits p := by
  cases route with
  | propagation link h =>
    rw [selected_propagation, fits_iff, length_data_propagation]
    change (_ ↔ link.room < _) ↔ _
    rw [room_of_link h]
    exact ⟨fun hiff hresource => hiff.mp (.inl hresource), fun hsuits => ⟨fun hor => hor.elim hsuits id, .inr⟩⟩
  | direct link h =>
    rw [selected_direct, fits_iff]
    change (_ ↔ link.room < p.packed.length) ↔ p.packed.length ≤ packetMDU ∨ packetMDU + destinationLength < p.packed.length
    rw [room_of_link h]
    omega
  | raw method destination hmethod h =>
    rw [selected_raw, fits_iff]
    change (_ ↔ destination.room < _) ↔ _ ≤ min packetMDU destination.room ∨ max packetMDU destination.room < _
    omega

theorem packPropagated_representation (hpack : p.packPropagated f = some p') :
    p'.representation = if p'.propagationPackedLength > linkPacketMaxContent then .resource else .packet := by
  unfold Parcel.packPropagated at hpack
  split at hpack
  · cases hpack
  · obtain ⟨encrypted, -, rfl⟩ := map_eq_some_iff.mp hpack
    rw [Parcel.propagationPackedLength]
    dsimp only [map_some, getD_some]
    split
    · next hle => rw [if_neg (Nat.not_lt.mpr hle)]
    · next hlt => rw [if_pos (Nat.lt_of_not_le hlt)]

theorem fits_packPropagated_iff (hpack : p.packPropagated f = some p') :
    (propagation link h).Fits p' p'.representation ↔
      p'.propagationPackedLength ≤ 319 ∨ 431 < p'.propagationPackedLength := by
  rw [packPropagated_representation hpack, fits_iff, length_data_propagation]
  change (_ ↔ link.room < _) ↔ _
  rw [room_of_link h, linkPacketMaxContent, packetMDU_eq, destinationLength, signatureLength]
  omega

theorem fits_opportunistic {hmethod : Method.opportunistic ≠ .propagated}
    {h : destination.type ≠ .link} (hlength : p.packed.length ≤ encryptedPacketMaxContent) :
    (raw .opportunistic destination hmethod h).Fits p .packet := by
  refine ⟨fun _ => ?_, fun habsurd => by cases habsurd⟩
  refine (destination.pack_isSome _).mpr (Nat.le_trans ?_ (room_of_destination h))
  rw [Route.data, if_pos (.inl rfl), length_drop]
  rw [encryptedPacketMaxContent, packetMDU_eq, destinationLength, signatureLength] at hlength
  omega

/-- The router chooses rightly just for the lengths of `Suits`, `Pack` except for 320 to 431 bytes to the node. -/
theorem representation_fits_iff (route : Route) (p : Parcel) (m : OutboundMessage) (f : PropagatedFacts) :
    (route.Fits p (route.message p m).selected ↔ route.Suits p) ∧
      ∀ p', p.finishPack route.method f = some p' → route.method = .opportunistic ∨ route.method = .propagated →
        (route.Fits p' p'.representation ↔
          (route.method = .propagated → p'.propagationPackedLength ≤ 319 ∨ 431 < p'.propagationPackedLength)) := by
  refine ⟨fits_selected_iff route, fun p' hpack hmethod => ?_⟩
  cases route with
  | propagation link h => exact (fits_packPropagated_iff hpack).trans ⟨fun h _ => h, fun h => h rfl⟩
  | direct link h => rcases hmethod with hmethod | hmethod <;> cases hmethod
  | raw method destination hother h =>
    rcases hmethod with hmethod | hmethod
    · obtain rfl : method = .opportunistic := hmethod
      obtain ⟨hlength, heq⟩ := Option.ite_none_left_eq_some.mp hpack
      cases heq
      exact iff_of_true (fits_opportunistic (Nat.not_lt.mp hlength)) fun habsurd => absurd habsurd hother
    · exact absurd hmethod hother

end Route

namespace Sample

def link : PacketTarget where
  type := .link
  hash := List.replicate 16 3
  token := ⟨List.replicate 16 0, id, fun _ => List.replicate 32 0, rfl, fun _ => rfl, fun _ => rfl⟩
  ephemeralKey := List.replicate 32 0
  hash_length := rfl
  ephemeralKey_length := rfl

theorem link_type : link.type = .link := rfl

def parcel : Parcel := { destinationHash := List.replicate 16 7, packed := List.replicate 111 7 }

/-- It is to be sent as a packet, and the packet fits. -/
theorem parcel_fits : ∃ p', parcel.finishPack .propagated Sender.Sample.plain.toPropagatedFacts = some p' ∧
    p'.representation = .packet ∧ (Route.propagation link link_type).Fits p' p'.representation := by
  obtain ⟨p', hpack, hpacket, hlength⟩ : ∃ p ∈ parcel.finishPack .propagated Sender.Sample.plain.toPropagatedFacts,
      p.representation = .packet ∧ p.propagationPackedLength = 124 := by decide +kernel
  refine ⟨p', hpack, hpacket, ?_⟩
  refine ((Route.representation_fits_iff (.propagation link link_type) parcel Sender.Sample.direct
    Sender.Sample.plain.toPropagatedFacts).2 p' hpack (.inr rfl)).mpr fun _ => .inl ?_
  rw [hlength]
  decide

def longLetter : Draft := { letter with content := List.replicate 328 104 }

/-- The router chooses a packet for it on a direct link, and that packet is too long. -/
theorem longLetter_unfit : (longLetter.pack packFacts).1 = true ∧ (longLetter.pack packFacts).2.packed.length = 440 ∧
    ∀ p : Parcel, p.packed = (longLetter.pack packFacts).2.packed → ∀ m,
      ((Route.direct link link_type).message p m).selected = .packet ∧ (Route.direct link link_type).packet p = none := by
  obtain ⟨hsuccess, hlength⟩ : (longLetter.pack packFacts).1 = true ∧
      (longLetter.pack packFacts).2.packed.length = 440 := by
    decide +kernel
  refine ⟨hsuccess, hlength, fun p hp m => ⟨?_, ?_⟩⟩
  · rw [Route.selected_direct, hp, hlength]
    decide
  · have hlong : ¬((Route.direct link link_type).data p).length ≤ link.room := by
      change ¬p.packed.length ≤ _
      rw [hp, hlength]
      decide
    exact Option.not_isSome_iff_eq_none.mp ((link.pack_isSome _).not.mpr hlong)

end Sample

end Lxmf
end Reticulum
