import Reticulum.Theorems.Resource.Payload

/-! # The sender of a resource: what it answers to the requests of a receiver -/

namespace Reticulum.Resource

open List Option

variable {s sender : Resource} {i : Nat}

def partData (s : Resource) (i : Nat) : Bytes := (s.parts[i]?.map (·.data)).getD []

def partHash (s : Resource) (i : Nat) : Bytes := mapHash s.randomHash (s.partData i)

theorem partData_eq (hi : i < s.parts.length) : s.partData i = s.parts[i].data := by
  rw [partData, getElem?_eq_getElem hi]
  rfl

def Mapped (s : Resource) : Prop := ∀ part ∈ s.parts, part.mapHash = some (mapHash s.randomHash part.data)

theorem Mapped.getElem (hs : s.Mapped) (hi : i < s.parts.length) : s.parts[i].mapHash = some (s.partHash i) := by
  rw [hs _ (getElem_mem hi), partHash, partData_eq hi]

/-- The request of a receiver that knows so many map hashes. -/
def requestData (s : Resource) (known : Nat) (items : List Nat) (names : Bool) : Bytes :=
  if names then 0xff :: s.partHash (known - 1) ++ s.hash ++ (items.map s.partHash).flatten
  else 0x00 :: s.hash ++ (items.map s.partHash).flatten

theorem mapHashes_flatten {hashes : List Bytes} (h : ∀ b ∈ hashes, b.length = resourceMapHashLen) :
    mapHashes hashes.flatten = hashes := by
  have hlen : hashes.flatten.length = hashes.length * resourceMapHashLen := by
    induction hashes with
    | nil => rfl
    | cons b bs ih =>
      rw [flatten_cons, length_append, ih fun c hc => h c (mem_cons_of_mem b hc),
        h b mem_cons_self, length_cons, Nat.succ_mul, Nat.add_comm]
  have hslices := slices_flatten h []
  rw [append_nil] at hslices
  rw [mapHashes, hlen, Nat.mul_div_cancel _ (by decide), hslices]

theorem mapHashes_partHash (s : Resource) (items : List Nat) :
    mapHashes (items.map s.partHash).flatten = items.map s.partHash := by
  refine mapHashes_flatten fun b hb => ?_
  obtain ⟨i, _, rfl⟩ := mem_map.mp hb
  exact length_mapHash _ _

/-- The resource as its sender keeps it: only the marks of what was sent change. -/
structure Serving (s sender : Resource) : Prop where
  hash : sender.hash = s.hash
  hashmap : sender.hashmap = s.hashmap
  data : sender.parts.map (·.data) = s.parts.map (·.data)
  mapHash : sender.parts.map (·.mapHash) = s.parts.map (·.mapHash)

section

variable (h : Serving s sender)
include h

theorem Serving.length : sender.parts.length = s.parts.length := by
  have hlen := congrArg List.length h.data
  rwa [length_map, length_map] at hlen

theorem Serving.getElem_mapHash (hs : s.Mapped) {i : Nat} (hi : i < sender.parts.length) :
    sender.parts[i].mapHash.getD [] = s.partHash i := by
  have hi' : i < s.parts.length := h.length ▸ hi
  have hget : (sender.parts.map (·.mapHash))[i]? = some (some (s.partHash i)) := by
    rw [h.mapHash, getElem?_map, getElem?_eq_getElem hi', map_some, hs.getElem hi']
  rw [getElem?_map, getElem?_eq_getElem hi, map_some] at hget
  rw [some.inj hget]
  rfl

theorem Serving.findIdx?_eq (hs : s.Mapped) {i : Nat} (hi : i < s.parts.length) :
    ∃ j < s.parts.length, (sender.parts.findIdx? fun part => part.mapHash.getD [] == s.partHash i) = some j ∧
      s.partHash j = s.partHash i := by
  have hi' := h.length.symm ▸ hi
  cases hfind : sender.parts.findIdx? fun part => part.mapHash.getD [] == s.partHash i with
  | none =>
    have hnot := findIdx?_eq_none_iff.mp hfind _ (getElem_mem hi')
    rw [h.getElem_mapHash hs hi', beq_self_eq_true] at hnot
    cases hnot
  | some j =>
    obtain ⟨hj, heq, -⟩ := findIdx?_eq_some_iff_getElem.mp hfind
    rw [h.getElem_mapHash hs hj, beq_iff_eq] at heq
    exact ⟨j, h.length ▸ hj, rfl, heq⟩

theorem Serving.markSent (i : Nat) : Serving s (sender.markSent i) := by
  rw [Resource.markSent]
  split_ifs
  · exact h
  · have hsame : ∀ {α : Type} (g : ResourcePart → α), (∀ part, g { part with sent := true } = g part) →
        (sender.parts.modify i fun part => { part with sent := true }).map g = sender.parts.map g := by
      intro α g hg
      refine ext_getElem? fun j => ?_
      rw [getElem?_map, getElem?_map, getElem?_modify]
      cases sender.parts[j]? with
      | none => rfl
      | some part => by_cases hj : i = j <;> simp [hj, hg]
    exact { h with data := (hsame _ fun _ => rfl).trans h.data, mapHash := (hsame _ fun _ => rfl).trans h.mapHash }

end

/-- Two parts with the same map hash are the same bytes. -/
def Unmistakable (s : Resource) : Prop :=
  ∀ i j, i < s.parts.length → j < s.parts.length → s.partHash i = s.partHash j → s.partData i = s.partData j

structure Answers (s : Resource) (effects : List ResourceEffect) (height : Nat) (o : Outcome) : Prop where
  serving : Serving s o.resource
  alive : o.resource.status ≠ .failed
  effects : o.effects = effects
  error : o.error = none
  height : o.resource.receiverMinConsecutiveHeight = height

theorem Serving.sendParts (hs : s.Mapped) (hsame : s.Unmistakable) (items : List Nat) :
    ∀ {sender : Resource}, Serving s sender → sender.status ≠ .failed → (∀ i ∈ items, i < s.parts.length) →
    Answers s (items.map fun i => .send .resource (s.partData i)) sender.receiverMinConsecutiveHeight
      (sender.sendParts (fun _ => true) (items.map s.partHash)) := by
  induction items with
  | nil => exact fun h halive _ => ⟨h, halive, rfl, rfl, rfl⟩
  | cons i items ih =>
    intro sender h halive hlt
    have hi := hlt i mem_cons_self
    obtain ⟨k, hk, hfind, heq⟩ := h.findIdx?_eq hs hi
    have hframe : (sender.markSent k).status = sender.status ∧
        (sender.markSent k).receiverMinConsecutiveHeight = sender.receiverMinConsecutiveHeight := by
      rw [Resource.markSent]
      split_ifs <;> exact ⟨rfl, rfl⟩
    have hrest := ih (h.markSent k) (hframe.1 ▸ halive) fun j hj => hlt j (mem_cons_of_mem i hj)
    rw [map_cons, map_cons, Resource.sendParts, hfind]
    simp only [if_true]
    refine { hrest with effects := ?_, height := hrest.height.trans hframe.2 }
    rw [hrest.effects, ← hsame k i hk hi heq, partData, ← getElem?_map, ← getElem?_map, h.data]

/-! ### The segment to answer with -/

section

variable {parts : List ResourcePart} {lastMapHash : Bytes} {start position segment : Nat}

/-- The part before the position is the first of those that are scanned with the map hash. -/
def NamedBefore (parts : List ResourcePart) (lastMapHash : Bytes) (start position : Nat) : Prop :=
  start < position ∧ position ≤ start + collisionGuardSize ∧
    parts[position - 1]?.map (·.mapHash.getD []) = some lastMapHash ∧
    ∀ i, start ≤ i → i < position - 1 → parts[i]?.map (·.mapHash.getD []) ≠ some lastMapHash

theorem NamedBefore.hmuSegmentForMapHash (h : NamedBefore parts lastMapHash start position) :
    Resource.hmuSegmentForMapHash parts lastMapHash start = (position - 1 - resourceWindowMax,
      if position % hashmapMaxLen = 0 then some (position / hashmapMaxLen) else none) := by
  obtain ⟨hstart, hguard, hlast, hfirst⟩ := h
  obtain ⟨part, hpart, hname⟩ := map_eq_some_iff.mp hlast
  obtain ⟨hlt, rfl⟩ := List.getElem?_eq_some_iff.mp hpart
  have hlength : ((parts.drop start).take collisionGuardSize).length = min collisionGuardSize (parts.length - start) := by
    rw [length_take, length_drop]
  have hfind : (((parts.drop start).take collisionGuardSize).findIdx fun part => part.mapHash.getD [] == lastMapHash) =
      position - 1 - start := by
    refine (findIdx_eq (by omega)).mpr ⟨?_, fun j hj => ?_⟩
    · simp only [getElem_take, getElem_drop, Nat.add_sub_cancel' (Nat.le_sub_one_of_lt hstart), hname, beq_self_eq_true]
    · have hne := hfirst (start + j) (Nat.le_add_right _ _) (by omega)
      rw [getElem?_eq_getElem (by omega), map_some, Ne, Option.some.injEq] at hne
      simpa only [getElem_take, getElem_drop, beq_eq_false_iff_ne] using hne
  have hend : start + min (position - 1 - start + 1) (min collisionGuardSize (parts.length - start)) = position := by
    omega
  simp only [Resource.hmuSegmentForMapHash, hfind, hlength, hend]

end

theorem Serving.serveRequest (h : Serving s sender) (head : Bytes) (last : Option Bytes) (items : List Nat) :
    sender.serveRequest head.length last (head ++ s.hash ++ (items.map s.partHash).flatten) (fun _ => true) =
      finishRequest (sender.sendParts (fun _ => true) (items.map s.partHash)) last (fun _ => true) := by
  have hlen : ¬(head ++ s.hash ++ (items.map s.partHash).flatten).length < head.length + s.hash.length := by
    rw [length_append, length_append]
    omega
  have hhash : ((head ++ s.hash ++ (items.map s.partHash).flatten).drop head.length).take s.hash.length = s.hash := by
    rw [append_assoc, drop_left, take_left]
  have hrest : (head ++ s.hash ++ (items.map s.partHash).flatten).drop (head.length + s.hash.length) =
      (items.map s.partHash).flatten := by
    rw [← length_append, drop_left]
  rw [Resource.serveRequest, h.hash, if_neg hlen, if_neg (not_not.mpr hhash), hrest, mapHashes_partHash]

def underWay (sender : Resource) : Resource :=
  { sender with status := .transferring, retriesLeft := sender.maxRetries }

section

variable (h : Serving s sender)
include h

theorem Serving.underWay : Serving s sender.underWay := { h with }

theorem Serving.request_eq (halive : sender.status ≠ .failed) (known : Nat) (items : List Nat)
    (names : Bool) : sender.request (s.requestData known items names) (fun _ => true) =
      finishRequest (sender.underWay.sendParts (fun _ => true) (items.map s.partHash))
        (if names then some (s.partHash (known - 1)) else none) (fun _ => true) := by
  rw [Resource.request, if_neg halive]
  cases names with
  | false => exact h.underWay.serveRequest [0x00] none items
  | true => exact h.underWay.serveRequest (0xff :: s.partHash (known - 1)) (some (s.partHash (known - 1))) items

end

def servedParts (effects : List ResourceEffect) : List Bytes :=
  effects.filterMap fun
    | .send .resource data => some data
    | _ => none

theorem servedParts_finishRequest (parts : Outcome) (last : Option Bytes) (sends : Nat → Bool) :
    servedParts (finishRequest parts last sends).effects = servedParts parts.effects := by
  cases last with
  | none =>
    rw [finishRequest]
    split_ifs <;> rfl
  | some last =>
    have hhmu : servedParts (parts.resource.sendHmu last (sends parts.effects.length)).effects = [] := by
      rw [sendHmu]
      split
      · rfl
      · split
        · rfl
        · split_ifs <;> rfl
    rw [servedParts] at hhmu
    rw [finishRequest]
    split_ifs
    · rfl
    · simp only [servedParts, filterMap_append, hhmu, append_nil]

theorem Serving.servedParts_request {items : List Nat} (h : Serving s sender) (hs : s.Mapped) (hsame : s.Unmistakable)
    (halive : sender.status ≠ .failed) (known : Nat) (hlt : ∀ i ∈ items, i < s.parts.length)
    (names : Bool) : servedParts (sender.request (s.requestData known items names) fun _ => true).effects =
      items.map s.partData := by
  rw [h.request_eq halive, servedParts_finishRequest, (h.underWay.sendParts hs hsame items nofun hlt).effects, servedParts,
    filterMap_map]
  exact congrFun filterMap_eq_map items

end Reticulum.Resource
