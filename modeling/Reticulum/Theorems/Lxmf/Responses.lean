import Reticulum.Theorems.Lxmf.Download

/-! # Which responses of a propagation node the client survives -/

namespace Reticulum.Lxmf
open Router
open Msgpack (Value)

def ListReturns (response : Value) : Prop :=
  ∀ items, response = .array items → ∀ item ∈ items, unhashablePanic item = none

/-- One of the two error codes, an empty string, or a list or map of byte strings. -/
inductive GetReturns : Value → Prop where
  | noIdentity {response : Value} (h : responseErrorCode response = some peerErrorNoIdentity) : GetReturns response
  | noAccess {response : Value} (h : responseErrorCode response = some peerErrorNoAccess) : GetReturns response
  | str : GetReturns (.str [])
  | raw : GetReturns (.raw [])
  | bin : GetReturns (.bin [])
  | array {items : List Value} (h : ∀ item ∈ items, ∃ payload, item = .bin payload) : GetReturns (.array items)
  | map {entries : List (Value × Value)} (h : ∀ entry ∈ entries, ∃ payload, entry.1 = .bin payload) :
      GetReturns (.map entries)

variable (r : Router)

theorem messageListResponse_returns_iff (options : DownloadOptions) (response : Value) :
    (∃ request, r.messageListResponse options response = .ok request) ↔ ListReturns response := by
  unfold messageListResponse
  split
  · rename_i items
    split_ifs with hempty
    · refine iff_of_true ⟨none, rfl⟩ ?_
      rintro _ ⟨⟩ item hitem
      exact absurd (hempty ▸ hitem) List.not_mem_nil
    · cases hpanic : items.findSome? unhashablePanic with
      | none =>
        refine iff_of_true ⟨_, rfl⟩ ?_
        rintro _ ⟨⟩
        exact List.findSome?_eq_none_iff.mp hpanic
      | some panic =>
        obtain ⟨item, hitem, hunhashable⟩ := List.exists_of_findSome?_eq_some hpanic
        refine iff_of_false (fun ⟨_, h⟩ => by cases h) fun h => ?_
        rw [h items rfl item hitem] at hunhashable
        cases hunhashable
  · rename_i hlist
    exact iff_of_true ⟨none, rfl⟩ fun items heq => absurd heq (hlist items)

theorem getEntries_returns_iff (entries : List Value) :
    (∃ result, (r.getEntries entries).value = .ok result) ↔ ∀ entry ∈ entries, ∃ payload, entry = .bin payload := by
  induction entries generalizing r with
  | nil => exact iff_of_true ⟨_, rfl⟩ fun entry h => absurd h List.not_mem_nil
  | cons entry rest ih =>
    rw [List.forall_mem_cons]
    cases hentry : responseBytes entry with
    | none =>
      rw [getEntries, hentry]
      refine iff_of_false ?_ ?_
      · rintro ⟨_, h⟩
        cases h
      · rintro ⟨⟨payload, rfl⟩, -⟩
        cases hentry
    | some payload =>
      rw [getEntries, hentry, ← ih (r.handlePropagatedInbound payload).router]
      dsimp only
      cases ((r.handlePropagatedInbound payload).router.getEntries rest).value with
      | error panic =>
        refine iff_of_false ?_ ?_
        · rintro ⟨_, h⟩
          cases h
        · rintro ⟨_, _, h⟩
          cases h
      | ok value =>
        have hbin : entry = .bin payload := by cases entry <;> simp_all [responseBytes]
        exact iff_of_true ⟨_, rfl⟩ ⟨⟨payload, hbin⟩, value, rfl⟩

theorem messageGetResponse_ok_iff (response : Value) :
    (∃ haves, (r.messageGetResponse response).value = .ok haves) ↔
      messageGetEntries response = .error none ∨
        ∃ entries, messageGetEntries response = .ok entries ∧ ∀ entry ∈ entries, ∃ payload, entry = .bin payload := by
  unfold messageGetResponse
  cases messageGetEntries response with
  | error panic =>
    cases panic with
    | none => exact iff_of_true ⟨_, rfl⟩ (.inl rfl)
    | some panic =>
      refine iff_of_false (fun ⟨_, h⟩ => by cases h) ?_
      rintro (h | ⟨_, h, -⟩)
      · cases h
      · cases h
  | ok entries =>
    have hloop := getEntries_returns_iff r entries
    dsimp only
    cases hvalue : (r.getEntries entries).value with
    | error panic =>
      refine iff_of_false (fun ⟨_, h⟩ => by cases h) ?_
      rintro (h | ⟨_, h, hall⟩)
      · cases h
      · obtain ⟨result, hresult⟩ := hloop.mpr (Except.ok.inj h ▸ hall)
        rw [hvalue] at hresult
        cases hresult
    | ok value => exact iff_of_true ⟨_, rfl⟩ (.inr ⟨entries, rfl, hloop.mp ⟨value, hvalue⟩⟩)

theorem messageGetEntries_returns_iff (response : Value) : (messageGetEntries response = .error none ∨
      ∃ entries, messageGetEntries response = .ok entries ∧ ∀ entry ∈ entries, ∃ payload, entry = .bin payload) ↔
      GetReturns response := by
  unfold messageGetEntries
  by_cases hcode : responseErrorCode response = some peerErrorNoIdentity ∨ responseErrorCode response = some peerErrorNoAccess
  · rw [if_pos hcode]
    refine iff_of_true (.inl rfl) ?_
    rcases hcode with h | h
    · exact .noIdentity h
    · exact .noAccess h
  rw [if_neg hcode]
  constructor
  · intro h
    cases response with
    | str s =>
      by_cases hs : s = []
      · exact hs ▸ .str
      · simp [hs] at h
    | raw s =>
      by_cases hs : s = []
      · exact hs ▸ .raw
      · simp [hs] at h
    | bin b =>
      by_cases hb : b = []
      · exact hb ▸ .bin
      · simp [hb] at h
    | array items =>
      rcases h with h | ⟨entries, h, hall⟩
      · cases h
      · exact .array (Except.ok.inj h ▸ hall)
    | map entries =>
      rcases h with h | ⟨keys, h, hall⟩
      · cases h
      · obtain rfl := Except.ok.inj h
        exact .map fun entry hentry => hall entry.1 (List.mem_map_of_mem hentry)
    | _ => simp at h
  · intro h
    cases h with
    | noIdentity h => exact absurd (.inl h) hcode
    | noAccess h => exact absurd (.inr h) hcode
    | str | raw | bin => exact .inr ⟨[], rfl, fun _ h => absurd h List.not_mem_nil⟩
    | array h => exact .inr ⟨_, rfl, h⟩
    | map h => exact .inr ⟨_, rfl, List.forall_mem_map.mpr h⟩

/-- Each handler returns for these responses and panics on all others. -/
theorem responses_return_iff (r : Router) (options : DownloadOptions) (response : Value) :
    ((∃ request, r.messageListResponse options response = .ok request) ↔ ListReturns response) ∧
      ((∃ haves, (r.messageGetResponse response).value = .ok haves) ↔ GetReturns response) :=
  ⟨messageListResponse_returns_iff r options response,
    (messageGetResponse_ok_iff r response).trans (messageGetEntries_returns_iff response)⟩

/-- A list with an empty map in it, and nil. -/
theorem responses_panic : Msgpack.unpack [0x91, 0x80] = .ok (.array [.map []]) ∧
      sampleRouter.messageListResponse {} (.array [.map []]) = .error (Text.ascii "unhashable type: 'dict'") ∧
      Msgpack.unpack [0xc0] = .ok .nil ∧
      (sampleRouter.messageGetResponse .nil).value = .error (Text.ascii "object of type 'NoneType' has no len()") := by
  exact ⟨rfl, rfl, rfl, rfl⟩

end Reticulum.Lxmf
