import Reticulum.Gornsh.Protocol
import Reticulum.Theorems.Buffer

/-! # The messages of the remote shell on the wire -/

namespace Reticulum.Gornsh

open List

open Msgpack (Value Tree normal)

namespace Message

def WellFormed : Message → Prop
  | execute m => m.commandLine.length < 2 ^ 32 ∧ (∀ s ∈ m.commandLine, s.length < 2 ^ 32) ∧
      Tree (· < 2 ^ 32) m.tcFlags ∧ ∀ s ∈ m.term, s.length < 2 ^ 32
  | streamData m => m.streamID < 0x4000
  | versionInfo m => m.softwareVersion.length < 2 ^ 32
  | error m => m.message.length < 2 ^ 32 ∧ Tree (· < 2 ^ 32) m.data
  | noop | windowSize _ | commandExited _ => True

def received : Message → Message
  | execute m => execute { m with tcFlags := normal m.tcFlags }
  | versionInfo m =>
    versionInfo { m with protocolVersion := if m.protocolVersion = 0 then Gornsh.protocolVersion else m.protocolVersion }
  | error m => error { m with data := normal m.data }
  | m => m

end Message

theorem tree_optionalInt (i : Option Int64) : Tree (· < 2 ^ 32) (optionalInt i) := by
  cases i with
  | none => exact .nil
  | some i => exact .int i

theorem tree_optionalString {s : Option Bytes} (h : ∀ t ∈ s, t.length < 2 ^ 32) :
    Tree (· < 2 ^ 32) (optionalString s) := by
  cases s with
  | none => exact .nil
  | some s => exact .str (h s rfl)

theorem toInt_optionalInt (i : Option Int64) : toInt (normal (optionalInt i)) = i := by
  cases i <;> rfl

theorem toOptionalStringPtr_optionalString (s : Option Bytes) :
    toOptionalStringPtr (normal (optionalString s)) = s := by
  cases s <;> rfl

theorem toStringSlice_normal (lines : List Bytes) : toStringSlice (normal (.array (lines.map .str))) = lines := by
  rw [normal, Msgpack.normalItems_eq, toStringSlice, map_map, filterMap_map]
  exact filterMap_some

theorem unpackParts_pack {items : List Value} (h : Tree (· < 2 ^ 32) (.array items)) :
    unpackParts (Msgpack.pack false (.array items)) = items.map normal := by
  rw [unpackParts, Msgpack.unpack_tree h, normal, Msgpack.normalItems_eq]

theorem factories_pack {m : Message} (h : m.WellFormed) :
    ∃ factory, factories m.msgType = some factory ∧ ∀ data, m.pack = some data → factory data = some m.received := by
  cases m with
  | noop => exact ⟨_, rfl, fun _ _ => rfl⟩
  | windowSize m =>
    refine ⟨unpackWindowSize, rfl, ?_⟩
    rintro _ ⟨⟩
    rw [unpackWindowSize, unpackParts_pack (.array (by simp) fun v hv => ?_)]
    · simp only [map_cons, map_nil, toInt_optionalInt]
      rfl
    · obtain ⟨i, -, rfl⟩ := mem_map.mp hv
      exact tree_optionalInt i
  | execute m =>
    obtain ⟨hcount, hlines, hflags, hterm⟩ := h
    refine ⟨unpackExecute, rfl, ?_⟩
    rintro _ ⟨⟩
    rw [unpackExecute, unpackParts_pack (.array (by simp) ?_)]
    · simp only [map_cons, map_nil, cons_append, nil_append, toInt_optionalInt,
        toOptionalStringPtr_optionalString, toStringSlice_normal]
      rfl
    · simp only [cons_append, nil_append, map_cons, map_nil, forall_mem_cons,
        tree_optionalInt, true_and]
      refine ⟨.array (by rwa [length_map]) fun v hv => ?_, .bool _, .bool _, .bool _, hflags,
        tree_optionalString hterm, fun _ hv => nomatch hv⟩
      obtain ⟨s, hs, rfl⟩ := mem_map.mp hv
      exact .str (hlines s hs)
  | streamData m =>
    refine ⟨_, rfl, fun data hdata => ?_⟩
    rw [Message.pack, StreamDataMessage.pack_eq h, Option.some.injEq] at hdata
    rw [← hdata, StreamDataMessage.parse_pack h]
    rfl
  | versionInfo m =>
    refine ⟨unpackVersionInfo, rfl, ?_⟩
    rintro _ ⟨⟩
    rw [unpackVersionInfo, unpackParts_pack (.array (by simp) ?_)]
    · rfl
    · simp only [forall_mem_cons]
      exact ⟨.str h, .int _, fun _ hv => nomatch hv⟩
  | error m =>
    refine ⟨unpackError, rfl, ?_⟩
    rintro _ ⟨⟩
    rw [unpackError, unpackParts_pack (.array (by simp) ?_)]
    · rfl
    · simp only [forall_mem_cons]
      exact ⟨.str h.1, .bool _, h.2, fun _ hv => nomatch hv⟩
  | commandExited code =>
    refine ⟨unpackCommandExited, rfl, ?_⟩
    rintro _ ⟨⟩
    rw [unpackCommandExited, Msgpack.unpack_tree (.int code)]
    rfl

variable {m : Message}

def Message.Fits (m : Message) (mdu : Nat) : Prop := ∃ data, m.pack = some data ∧ data.length + 6 ≤ mdu

/-- The message was sent if it could be; otherwise the result is an error. -/
def Tried (o : Outbox) (m : Message) (able : Prop) (result : Outbox × Option SendError) : Prop :=
  able ∧ result.2 = none ∧ o.Carries factories result.1 [m] ∨
    ¬able ∧ (∃ e, result.2 = some e) ∧ o.Carries factories result.1 []

theorem Tried.carries {o : Outbox} {able : Prop} {result : Outbox × Option SendError} (h : Tried o m able result) :
    ∃ ms, o.Carries factories result.1 ms ∧ ∀ m' ∈ ms, m' = m := by
  rcases h with ⟨-, -, hcarries⟩ | ⟨-, -, hcarries⟩
  · exact ⟨_, hcarries, fun _ => mem_singleton.mp⟩
  · exact ⟨_, hcarries, forall_mem_nil _⟩

theorem retry_cases (hm : m.WellFormed) (hlong : ∀ data, m.pack = some data → data.length < 65536) (o : Outbox)
    (attempts : List Verdict) :
    Tried o m.received (m.Fits o.mdu ∧ .taken ∈ attempts) (sendMessageWithRetry o m attempts) := by
  obtain ⟨factory, hfactory, hunpack⟩ := factories_pack hm
  induction attempts generalizing o with
  | nil => exact .inr ⟨fun h => (nomatch h.2), ⟨_, rfl⟩, .refl _ o⟩
  | cons verdict attempts ih =>
    rw [sendMessageWithRetry]
    rcases Outbox.send_cases { o with verdicts := [verdict] } m.toMessage with
      ⟨data, verdicts, hverdict, hdata, hfits, h⟩ | ⟨e, hrefuses, h⟩
    · cases hverdict
      rw [h]
      refine .inl ⟨⟨⟨data, hdata, hfits⟩, mem_cons_self⟩, rfl, rfl, _, rfl, .cons ?_ .nil, rfl⟩
      exact Envelope.unpack_pack (hlong data hdata) hfactory (hunpack data hdata)
    · have hnot : ¬(m.Fits o.mdu ∧ verdict = .taken) := by
        rintro ⟨⟨data, hdata, hfits⟩, rfl⟩
        exact hrefuses.head?_ne hdata hfits rfl
      rw [h]
      split_ifs with hlast
      · rw [hlast, mem_singleton]
        exact .inr ⟨fun h => hnot ⟨h.1, h.2.symm⟩, ⟨e, rfl⟩, rfl, [], (append_nil _).symm, .nil,
          (UInt16.add_zero _).symm⟩
      · rcases ih { o with verdicts := tail [verdict] } with ⟨hable, hnone, hcarries⟩ | ⟨hno, herror, hcarries⟩
        · exact .inl ⟨⟨hable.1, mem_cons_of_mem _ hable.2⟩, hnone, hcarries.mdu, hcarries.sent⟩
        · refine .inr ⟨fun h => ?_, herror, hcarries.mdu, hcarries.sent⟩
          rcases mem_cons.mp h.2 with htaken | hmem
          · exact hnot ⟨h.1, htaken.symm⟩
          · exact hno ⟨h.1, hmem⟩

end Reticulum.Gornsh
