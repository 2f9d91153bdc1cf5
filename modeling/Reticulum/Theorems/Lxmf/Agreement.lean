import Reticulum.Lxmf.Payload
import Reticulum.Theorems.Msgpack.Ordered

/-! # The hash of a message that another implementation has sent

A key that is a byte string is packed again as a string. -/

namespace Reticulum.Lxmf

open Msgpack List Option

structure WirePayload where
  timestamp : Value
  title : Value
  content : Value
  fields : Value
  stamp : Option Bytes
  timestamp_number : isPayloadTimestamp timestamp = true
  title_bytes : (payloadBytes title).isSome = true
  content_bytes : (payloadBytes content).isSome = true
  fields_map : isPayloadMap fields = true
  canonical : ∀ v ∈ [timestamp, title, content, fields], Canonical v
  stamp_length : ∀ s ∈ stamp, s.length < 2 ^ 32

namespace WirePayload

variable {v : Value} {f : Value → Value}

def base (p : WirePayload) : Value := .array [p.timestamp, p.title, p.content, p.fields]

def wire (p : WirePayload) : Value :=
  .array ([p.timestamp, p.title, p.content, p.fields] ++ p.stamp.toList.map .bin)

variable (p : WirePayload)

theorem canonical_base : Canonical p.base := .array (by simp) p.canonical

theorem canonical_wire : Canonical p.wire := by
  refine .array ?_ fun v hv => ?_
  · cases p.stamp with
    | none | some s => simp
  · rcases mem_append.mp hv with hv | hv
    · exact p.canonical v hv
    · obtain ⟨s, hs, rfl⟩ := mem_map.mp hv
      exact .bin (p.stamp_length s (mem_toList.mp hs))

theorem mapKeys_of_bytes (h : (payloadBytes v).isSome = true) : mapKeys f v = v := by
  cases v with
  | bin | str => rfl
  | _ => cases h

theorem hasBinKey_of_bytes (h : (payloadBytes v).isSome = true) : hasBinKey v = false := by
  cases v with
  | bin | str => rfl
  | _ => cases h

theorem of_number (h : isPayloadTimestamp v = true) :
    mapKeys f v = v ∧ hasBinKey v = false ∧ innerPayload v = none := by
  cases v with
  | int | uint | float32 | float64 => exact ⟨rfl, rfl, rfl⟩
  | _ => cases h

theorem isPayloadMap_mapKeys (h : isPayloadMap v = true) :
    isPayloadMap (mapKeys f v) = true := by
  cases v with
  | map => rfl
  | _ => cases h

theorem hasBinKey_base : hasBinKey p.base = hasBinKey p.fields := by
  have htimestamp := (of_number (f := id) p.timestamp_number).2.1
  simp [base, hasBinKey, hasBinKeyItems, htimestamp, hasBinKey_of_bytes p.title_bytes, hasBinKey_of_bytes p.content_bytes]

theorem unpackPayload_wire : unpackPayload (pack false p.wire) = some {
    timestamp := p.timestamp
    title := (payloadBytes p.title).getD []
    content := (payloadBytes p.content).getD []
    fields := mapKeys hashableKey p.fields
    stamp := p.stamp.getD []
    repacked := repack (mapKeys hashableKey p.base) } := by
  obtain ⟨htimestamp, -, hinner⟩ := of_number (f := hashableKey) p.timestamp_number
  have hread : unpackOrdered (pack false p.wire) = .ok (.array
      (p.timestamp :: p.title :: p.content :: mapKeys hashableKey p.fields :: p.stamp.toList.map .bin)) := by
    have hwire := unpackOrdered_pack p.canonical_wire []
    rw [append_nil] at hwire
    rw [hwire, wire, mapKeys, mapKeysItems_eq]
    cases p.stamp <;> simp [mapKeys, htimestamp, mapKeys_of_bytes p.title_bytes, mapKeys_of_bytes p.content_bytes]
  have hbase : mapKeys hashableKey p.base =
      .array [p.timestamp, p.title, p.content, mapKeys hashableKey p.fields] := by
    rw [base, mapKeys, mapKeysItems_eq]
    simp [htimestamp, mapKeys_of_bytes p.title_bytes, mapKeys_of_bytes p.content_bytes]
  obtain ⟨title, htitle⟩ := isSome_iff_exists.mp p.title_bytes
  obtain ⟨content, hcontent⟩ := isSome_iff_exists.mp p.content_bytes
  have hstamp : extractStamp (p.stamp.toList.map .bin) = p.stamp.getD [] := by
    cases p.stamp with
    | none | some s => rfl
  have hnormal : normalizePayload (p.timestamp :: p.title :: p.content :: mapKeys hashableKey p.fields ::
      p.stamp.toList.map .bin) = p.timestamp :: p.title :: p.content :: mapKeys hashableKey p.fields ::
      p.stamp.toList.map .bin := by
    rw [normalizePayload, hinner]
    rfl
  rw [unpackPayload, hread, hbase]
  dsimp only
  rw [hnormal]
  simp [p.timestamp_number, htitle, hcontent, hstamp, isPayloadMap_mapKeys p.fields_map]

end WirePayload

structure Envelope where
  destinationHash : Bytes
  sourceHash : Bytes
  signature : Bytes
  destinationHash_length : destinationHash.length = destinationLength
  sourceHash_length : sourceHash.length = destinationLength
  signature_length : signature.length = signatureLength

namespace Envelope

def message (e : Envelope) (p : WirePayload) : Bytes := e.destinationHash ++ e.sourceHash ++ e.signature ++ pack false p.wire

def hashed (e : Envelope) (p : WirePayload) : Bytes := e.destinationHash ++ e.sourceHash ++ pack false p.base

def rehashed (e : Envelope) (p : WirePayload) : Bytes :=
  e.destinationHash ++ e.sourceHash ++ repack (mapKeys hashableKey p.base)

variable (e : Envelope) (p : WirePayload)

theorem parts : (e.message p).take destinationLength = e.destinationHash ∧
    ((e.message p).drop destinationLength).take destinationLength = e.sourceHash ∧
    ((e.message p).drop (2 * destinationLength)).take signatureLength = e.signature ∧
    (e.message p).drop (2 * destinationLength + signatureLength) = pack false p.wire ∧
    ¬(e.message p).length < 2 * destinationLength + signatureLength := by
  have hhashes : (e.destinationHash ++ e.sourceHash).length = 2 * destinationLength := by
    rw [length_append, e.destinationHash_length, e.sourceHash_length, Nat.two_mul]
  have hprefix : (e.destinationHash ++ e.sourceHash ++ e.signature).length = 2 * destinationLength + signatureLength := by
    rw [length_append, hhashes, e.signature_length]
  refine ⟨?_, ?_, ?_, ?_, ?_⟩
  · rw [message, append_assoc, append_assoc, take_left' e.destinationHash_length]
  · rw [message, append_assoc, append_assoc, drop_left' e.destinationHash_length,
      take_left' e.sourceHash_length]
  · rw [message, append_assoc, drop_left' hhashes, take_left' e.signature_length]
  · rw [message, drop_left' hprefix]
  · rw [message, length_append, hprefix, not_lt]
    exact Nat.le_add_right _ _

theorem unpackMessageFromBytes_message (verify : (sourceHash signature signedPart : Bytes) → Bool)
    (isBlackholed : (sourceHash : Bytes) → Bool) (ticketField : Value → Option (Float × Bytes)) (method : Method) :
    unpackMessageFromBytes (payloadTransport verify isBlackholed ticketField) (e.message p) method = some {
      destinationHash := e.destinationHash
      sourceHash := e.sourceHash
      hash := fullHash (e.rehashed p)
      messageID := fullHash (e.rehashed p)
      stamp := p.stamp.getD []
      ticketField := ticketField (mapKeys hashableKey p.fields)
      signatureValidated := verify e.sourceHash e.signature (e.rehashed p ++ fullHash (e.rehashed p))
      sourceBlackholed := isBlackholed e.sourceHash
      method } := by
  obtain ⟨hdestination, hsource, hsignature, hpayload, hlength⟩ := e.parts p
  have hunpack : (payloadTransport verify isBlackholed ticketField).unpackPayload (pack false p.wire) = some {
      stamp := p.stamp.getD []
      repacked := repack (mapKeys hashableKey p.base)
      ticketField := ticketField (mapKeys hashableKey p.fields) } := by
    dsimp only [payloadTransport]
    rw [p.unpackPayload_wire]
    rfl
  rw [unpackMessageFromBytes, if_neg hlength, hdestination, hsource, hsignature, hpayload]
  dsimp only
  rw [hunpack]
  rfl

theorem rehashed_eq_iff : e.rehashed p = e.hashed p ↔ hasBinKey p.fields = false := by
  rw [rehashed, hashed, append_cancel_left_eq, repack_read_eq_iff p.canonical_base, p.hasBinKey_base]

end Envelope

namespace Sample

def payloadWith (fields : List (Value × Value)) (h : Canonical (.map fields)) : WirePayload where
  timestamp := .float64 0
  title := .bin []
  content := .bin []
  fields := .map fields
  stamp := some [7]
  timestamp_number := rfl
  title_bytes := rfl
  content_bytes := rfl
  fields_map := rfl
  canonical v hv := by
    simp only [List.mem_cons, List.not_mem_nil, or_false] at hv
    rcases hv with rfl | rfl | rfl | rfl
    · exact .float64 0
    · exact .bin (by decide)
    · exact .bin (by decide)
    · exact h
  stamp_length s hs := by
    cases hs
    decide

theorem canonical_single {k : Value} (hk : Canonical k) (h : ∀ es, k ≠ .map es) : Canonical (.map [(k, .nil)]) := by
  refine .map (by simp) (fun e he => ?_) (fun e he => ?_) fun e he => ?_
  all_goals obtain rfl := mem_singleton.mp he
  · exact hk
  · exact h
  · exact .nil

def bytesKey : WirePayload := payloadWith [(.bin [120], .nil)] (canonical_single (.bin (by decide)) fun _ => Value.noConfusion)

def envelope : Envelope :=
  ⟨List.replicate 16 1, List.replicate 16 2, List.replicate 64 3, rfl, rfl, rfl⟩

def transport : Transport :=
  payloadTransport (fun _ _ signedPart => signedPart = envelope.hashed bytesKey ++ fullHash (envelope.hashed bytesKey))
    (fun _ => false) fun _ => none

end Sample

end Reticulum.Lxmf
