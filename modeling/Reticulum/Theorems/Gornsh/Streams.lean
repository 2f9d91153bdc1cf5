import Reticulum.Gornsh.Streams
import Reticulum.Theorems.Gornsh.Protocol

/-! # What becomes of the bytes of a remote shell

The listener writes the data of a message to the command as they are, although the initiator may compress them. -/

namespace Reticulum.Gornsh

open Transitions List Option Function InitiatorSession CommandOutput

/-! ### Messages -/

theorem length_packStr_le (s : Bytes) : (Msgpack.packStr s).length ≤ s.length + 5 := by
  rw [Msgpack.packStr, length_append]
  split_ifs <;> simp [length_beBytes] <;> omega

def Reports (ms : List Message) : Prop := ∀ m ∈ ms, ∃ e, m = .error e

theorem carries_report (sender : Outbox) (text : Bytes) (fatal : Bool) (attempts : List Verdict)
    (h : text.length < 2 ^ 15 + 64) :
    ∃ ms, sender.Carries factories (sendProtocolErrorToSender sender text fatal attempts) ms ∧ Reports ms := by
  have hlong : ∀ data, (Message.error { message := text, fatal }).pack = some data → data.length < 65536 := by
    rintro _ ⟨⟩
    have hstr := length_packStr_le text
    simp only [Msgpack.pack, Msgpack.packItems, length_append, Msgpack.arrayHeader, length_cons, length_nil]
    norm_num at h ⊢
    omega
  have hwell : (Message.error { message := text, fatal }).WellFormed := ⟨by norm_num at h ⊢; omega, .nil⟩
  obtain ⟨ms, hcarries, hms⟩ := (retry_cases hwell hlong sender attempts).carries
  exact ⟨ms, hcarries, fun m hm => ⟨_, hms m hm⟩⟩

theorem carries_chunk (sender : Outbox) {m : StreamDataMessage} (attempts : List Verdict) (hid : m.streamID < 0x4000)
    (hshort : m.data.length ≤ 32 * 1024) : Tried sender (.streamData m) (m.data.length + 8 ≤ sender.mdu ∧
      .taken ∈ attempts) (sendMessageWithRetry sender (.streamData m) attempts) := by
  have hpack : (Message.streamData m).pack = some (putUint16 m.headerVal ++ m.data) := StreamDataMessage.pack_eq hid
  have hlength : (putUint16 m.headerVal ++ m.data).length = m.data.length + 2 := by
    rw [length_append, putUint16, length_cons, length_cons, length_nil, Nat.add_comm]
  have hfits : (Message.streamData m).Fits sender.mdu ↔ m.data.length + 8 ≤ sender.mdu := by
    constructor
    · rintro ⟨data, hdata, hle⟩
      rw [hpack, some.injEq] at hdata
      rw [← hdata, hlength] at hle
      omega
    · exact fun hle => ⟨_, hpack, by rw [hlength]; omega⟩
  have hlong : ∀ data, (Message.streamData m).pack = some data → data.length < 65536 := by
    intro data hdata
    rw [hpack, some.injEq] at hdata
    rw [← hdata, hlength]
    omega
  rw [← hfits]
  exact retry_cases (m := .streamData m) hid hlong sender attempts

/-! ### Input -/

section Input
variable {env : PumpEnv} {cfg : ListenerConfig} {l : Listener} {k : Nat} {w : Bytes}

/-- The session runs the command number `k`, and so much was written to its stdin. -/
structure Attached (k : Nat) (w : Bytes) (closed : Bool) (l : Listener) : Prop where
  state : l.session.state = .running
  command : l.command = some k
  active : l.commands[k]? = some ⟨w, closed⟩

theorem Attached.receive (cfg : ListenerConfig) (h : Attached k w false l) {m : StreamDataMessage}
    (hid : m.streamID = streamIDStdin) : Attached k (w ++ m.data) m.eof (l.receive cfg (.streamData m)) := by
  have hwrite : ActiveCommand.writeStdin ⟨w, false⟩ m.data m.eof none none = (⟨w ++ m.data, m.eof⟩, none) := by
    unfold ActiveCommand.writeStdin
    cases m.eof <;> simp
  have hreceive : l.receive cfg (.streamData m) =
      { l with commands := l.commands.set k ⟨w ++ m.data, m.eof⟩ } := by
    simp [Listener.receive, Listener.exec, Listener.dispatched, Listener.proceed, ListenerSession.handleStreamData,
      h.state, hid, h.command, h.active, hwrite]
  have hlt : k < l.commands.length := (List.getElem?_eq_some_iff.mp h.active).1
  rw [hreceive]
  exact ⟨h.state, h.command, getElem?_set_self hlt⟩

theorem Attached.receive_error {closed : Bool} (h : Attached k w closed l) (e : ErrorMessage) :
    Attached k w closed (l.receive cfg (.error e)) := by
  have hreceive : l.receive cfg (.error e) = l := by
    simp [Listener.receive, Listener.exec, Listener.dispatched, h.state]
  rwa [hreceive]

theorem Attached.receive_errors {closed : Bool} {ms : List Message} (h : Attached k w closed l)
    (hms : Reports ms) : Attached k w closed (ms.foldl (Listener.receive cfg) l) := by
  induction ms generalizing l with
  | nil => exact h
  | cons m ms ih =>
    obtain ⟨⟨e, rfl⟩, hrest⟩ := forall_mem_cons.mp hms
    exact ih (h.receive_error e) hrest

def reaches (env : PumpEnv) (mdu : Nat) (i : Nat) : List Bytes → Bytes × Bool
  | [] => ([], 8 ≤ mdu ∧ .taken ∈ env.attempts i)
  | c :: chunks =>
    match compressAdaptiveStreamData env.z c messageSenderMDU with
    | none => ([], false)
    | some (payload, _) =>
      if payload.length + 8 ≤ mdu ∧ .taken ∈ env.attempts i then
        let rest := reaches env mdu (i + 1) chunks
        (payload ++ rest.1, rest.2)
      else ([], false)

def readsOf (chunks : List Bytes) : List ReadResult := chunks.map (fun data => { data := data }) ++ [{ err := some .eof }]

theorem compressAdaptiveStreamData_cases {z : Bzip2} {c payload : Bytes} {compressed : Bool} (hne : c ≠ [])
    (h : compressAdaptiveStreamData z c messageSenderMDU = some (payload, compressed)) :
    (payload = c ∧ compressed = false ∧ ∃ out, z.compress defaultCompression c = some out ∧ c.length ≤ out.length) ∨
    payload.length < c.length ∧ z.compress defaultCompression c = some payload := by
  rw [compressAdaptiveStreamData, if_neg hne] at h
  obtain ⟨out, hout, heq⟩ := map_eq_some_iff.mp h
  split_ifs at heq with hsmall
  · cases heq
    exact .inr ⟨hsmall.1, hout⟩
  · cases heq
    refine .inl ⟨rfl, rfl, out, hout, ?_⟩
    by_contra hlt
    exact hsmall ⟨Nat.lt_of_not_le hlt, .inl rfl⟩

theorem length_compressAdaptiveStreamData_le {z : Bzip2} {c payload : Bytes} {compressed : Bool} (hne : c ≠ [])
    (h : compressAdaptiveStreamData z c messageSenderMDU = some (payload, compressed)) : payload.length ≤ c.length := by
  rcases compressAdaptiveStreamData_cases hne h with ⟨rfl, -⟩ | ⟨hlt, -⟩
  · exact Nat.le_refl _
  · exact hlt.le

theorem pump_reaches (chunks : List Bytes) (i : Nat) (state : TTYInputState) (o : Outbox)
    (hchunks : ∀ c ∈ chunks, c ≠ [] ∧ c.length ≤ 32 * 1024) :
    ∃ ms, o.Carries factories (env.pumpInitiatorStdin false i state o (readsOf chunks)) ms ∧
      ∀ w l, Attached k w false l → Attached k (w ++ (reaches env o.mdu i chunks).1) (reaches env o.mdu i chunks).2
        (ms.foldl (Listener.receive cfg) l) := by
  induction chunks generalizing i o with
  | nil =>
    have hid : (⟨streamIDStdin, [], true, false⟩ : StreamDataMessage).streamID < 0x4000 := by decide
    rcases carries_chunk o (env.attempts i) hid (Nat.zero_le _) with ⟨hable, -, hcarries⟩ | ⟨hnot, -, hcarries⟩
    · refine ⟨_, hcarries, fun w l hl => ?_⟩
      have hreach : reaches env o.mdu i [] = ([], true) := by
        rw [reaches, decide_eq_true (by simpa using hable)]
      rw [hreach]
      exact hl.receive cfg (m := ⟨streamIDStdin, [], true, false⟩) rfl
    · refine ⟨_, hcarries, fun w l hl => ?_⟩
      have hreach : reaches env o.mdu i [] = ([], false) := by
        rw [reaches, decide_eq_false (by simpa using hnot)]
      rw [hreach, append_nil]
      exact hl
  | cons c chunks ih =>
    obtain ⟨⟨hne, hshort⟩, hrest⟩ := forall_mem_cons.mp hchunks
    rw [readsOf, map_cons, cons_append, PumpEnv.pumpInitiatorStdin, reaches]
    rw [if_neg hne, if_neg Bool.false_ne_true]
    cases hcompress : compressAdaptiveStreamData env.z c messageSenderMDU with
    | none =>
      obtain ⟨ms, hcarries, hms⟩ := carries_report o env.compressError.val true (env.attempts i)
        (env.compressError.property.trans (by decide))
      refine ⟨ms, hcarries, fun w l hl => ?_⟩
      rw [append_nil]
      exact hl.receive_errors hms
    | some p =>
      obtain ⟨payload, compressed⟩ := p
      dsimp only
      have hpayload := (length_compressAdaptiveStreamData_le hne hcompress).trans hshort
      have hid : (⟨streamIDStdin, payload, false, compressed⟩ : StreamDataMessage).streamID < 0x4000 :=
        show streamIDStdin < 0x4000 by decide
      have hsend := carries_chunk o (env.attempts i) hid hpayload
      rcases hresult : env.send i o ⟨streamIDStdin, payload, false, compressed⟩ with ⟨o', err⟩
      rw [PumpEnv.send] at hresult
      rw [hresult] at hsend
      rcases hsend with ⟨hable, rfl, hcarries⟩ | ⟨hnot, ⟨e, rfl⟩, hcarries⟩
      · rw [if_pos hable]
        obtain ⟨ms, hcarries', hattached⟩ := ih (i + 1) o' hrest
        refine ⟨_ :: ms, hcarries.trans hcarries', fun w l hl => ?_⟩
        have hnext := hattached _ _ (hl.receive cfg (m := ⟨streamIDStdin, payload, false, compressed⟩) rfl)
        rw [append_assoc, hcarries.mdu] at hnext
        exact hnext
      · rw [if_neg hnot]
        refine ⟨_, hcarries, fun w l hl => ?_⟩
        rw [append_nil]
        exact hl

theorem length_reaches_le (env : PumpEnv) (mdu : Nat) (chunks : List Bytes) (i : Nat) (hchunks : ∀ c ∈ chunks, c ≠ []) :
    (reaches env mdu i chunks).1.length ≤ chunks.flatten.length := by
  induction chunks generalizing i with
  | nil => exact Nat.le_refl 0
  | cons c chunks ih =>
    obtain ⟨hne, hrest⟩ := forall_mem_cons.mp hchunks
    rw [reaches]
    cases hcompress : compressAdaptiveStreamData env.z c messageSenderMDU with
    | none => exact Nat.zero_le _
    | some p =>
      dsimp only
      split_ifs
      · rw [length_append, flatten_cons, length_append]
        exact Nat.add_le_add (length_compressAdaptiveStreamData_le hne hcompress) (ih (i + 1) hrest)
      · exact Nat.zero_le _

def Passes (env : PumpEnv) (mdu i : Nat) (c : Bytes) : Prop :=
  .taken ∈ env.attempts i ∧ c.length + 8 ≤ mdu ∧
    ∃ out, env.z.compress defaultCompression c = some out ∧ c.length ≤ out.length

theorem reaches_eq_iff (env : PumpEnv) (mdu : Nat) (chunks : List Bytes) (i : Nat) (hchunks : ∀ c ∈ chunks, c ≠ []) :
    reaches env mdu i chunks = (chunks.flatten, true) ↔
      (8 ≤ mdu ∧ .taken ∈ env.attempts (i + chunks.length)) ∧
        ∀ j c, chunks[j]? = some c → Passes env mdu (i + j) c := by
  induction chunks generalizing i with
  | nil => simp [reaches]
  | cons c chunks ih =>
    obtain ⟨hne, hrest⟩ := forall_mem_cons.mp hchunks
    -- The conditions on the first chunk and on the others.
    have hsplit : (∀ j d, (c :: chunks)[j]? = some d → Passes env mdu (i + j) d) ↔
        Passes env mdu i c ∧ ∀ j d, chunks[j]? = some d → Passes env mdu (i + 1 + j) d := by
      constructor
      · refine fun h => ⟨h 0 c rfl, fun j d hd => ?_⟩
        have hj := h (j + 1) d hd
        rwa [Nat.add_comm j 1, ← Nat.add_assoc] at hj
      · rintro ⟨hc, h⟩ j d hd
        cases j with
        | zero => exact some.inj hd ▸ hc
        | succ j =>
          rw [Nat.add_comm j 1, ← Nat.add_assoc]
          exact h j d hd
    rw [hsplit, length_cons, Nat.add_comm chunks.length 1, ← Nat.add_assoc, and_left_comm, ← ih (i + 1) hrest,
      reaches]
    cases hcompress : compressAdaptiveStreamData env.z c messageSenderMDU with
    | none =>
      refine iff_of_false (fun h => ?_) fun h => ?_
      · cases (Prod.mk.inj h).2
      · obtain ⟨-, -, out, hout, -⟩ := h.1
        rw [compressAdaptiveStreamData, if_neg hne, hout] at hcompress
        cases hcompress
    | some p =>
      obtain ⟨payload, compressed⟩ := p
      dsimp only
      by_cases hsent : payload.length + 8 ≤ mdu ∧ .taken ∈ env.attempts i
      · rw [if_pos hsent, flatten_cons]
        rcases compressAdaptiveStreamData_cases hne hcompress with ⟨rfl, -, hout⟩ | ⟨hlt, hout⟩
        · constructor
          · intro h
            obtain ⟨hbytes, hclosed⟩ := Prod.mk.inj h
            exact ⟨⟨hsent.2, hsent.1, hout⟩, Prod.ext (append_cancel_left hbytes) hclosed⟩
          · rintro ⟨-, h⟩
            rw [h]
        · refine iff_of_false (fun h => ?_) fun h => ?_
          · have hlength := congrArg length (Prod.mk.inj h).1
            have hbound := length_reaches_le env mdu chunks (i + 1) hrest
            rw [length_append, length_append] at hlength
            omega
          · obtain ⟨-, -, out, hout', hle⟩ := h.1
            rw [hout, some.injEq] at hout'
            exact absurd hlt (Nat.not_lt.mpr (hout' ▸ hle))
      · rw [if_neg hsent]
        refine iff_of_false (fun h => ?_) fun h => hsent ?_
        · cases (Prod.mk.inj h).2
        · obtain ⟨htaken, hfits, out, hout, hle⟩ := h.1
          rw [compressAdaptiveStreamData, if_neg hne, hout, map_some, some.injEq,
            if_neg fun hsmall => Nat.not_lt.mpr hle hsmall.1] at hcompress
          cases hcompress
          exact ⟨hfits, htaken⟩

/-- The command gets the input and its end just when the pump is started, each chunk and the end find the channel ready
    in time, and the chunks fit into one message and do not get shorter by compression. -/
theorem stdin_transparent_iff (env : PumpEnv) (cfg : ListenerConfig) (l : Listener) (k mdu : Nat) (noTTY : Bool)
    (chunks : List Bytes) (hl : Attached k [] false l) (hchunks : ∀ c ∈ chunks, c ≠ [] ∧ c.length ≤ 32 * 1024) :
    ((received factories (env.pumpInput noTTY false { mdu } (readsOf chunks)).sent).foldl (Listener.receive cfg)
        l).commands[k]? = some ⟨chunks.flatten, true⟩ ↔
      noTTY = false ∧ (8 ≤ mdu ∧ .taken ∈ env.attempts chunks.length) ∧
        ∀ i c, chunks[i]? = some c → Passes env mdu i c := by
  cases noTTY with
  | true =>
    refine iff_of_false (fun h => ?_) fun h => (nomatch h.1)
    have hnone : (env.pumpInput true false { mdu } (readsOf chunks)).sent = [] := rfl
    cases congrArg ActiveCommand.closed (Option.some.inj (hl.active.symm.trans h))
  | false =>
    obtain ⟨ms, hcarries, hattached⟩ := pump_reaches chunks 0 {} { mdu } hchunks
    have hms : received factories (env.pumpInput false false { mdu } (readsOf chunks)).sent = ms :=
      hcarries.received_eq rfl
    have hactive := (hattached [] l hl).active
    have hreaches := reaches_eq_iff env mdu chunks 0 fun c hc => (hchunks c hc).1
    simp only [Nat.zero_add] at hreaches
    rw [hms, hactive, ← hreaches]
    simp [Prod.ext_iff]

end Input

namespace Sample

def pumpEnv : PumpEnv where
  z := .shortening (List.replicate 40 0)
  compressError := ⟨[], by decide⟩
  attempts _ := [.notReady, .taken]

def listenerOptions : ListenerConfig where
  noAuth := true
  allowedList := []
  noRemoteCmd := false
  remoteAsArgs := false
  commandLine := [[0x63, 0x61, 0x74]]
  softwareVersion := []
  loginShell := []

def runningListener : Listener :=
  { Listener.new listenerOptions with
    session := { ListenerSession.new listenerOptions with state := .running }
    commands := [{}]
    command := some 0 }

theorem short_input_arrives :
    ((received factories (pumpEnv.pumpInput false false { mdu := 431 } (readsOf [[1, 2, 3], [4]])).sent).foldl
      (Listener.receive listenerOptions) runningListener).commands[0]? = some ⟨[1, 2, 3, 4], true⟩ := by
  refine (stdin_transparent_iff pumpEnv listenerOptions runningListener 0 431 false [[1, 2, 3], [4]]
    ⟨rfl, rfl, rfl⟩ (by decide)).mpr ⟨rfl, ⟨by decide, by decide⟩, fun i c hc => ?_⟩
  have htaken : ∀ i, .taken ∈ pumpEnv.attempts i := fun _ => List.mem_cons_of_mem _ List.mem_cons_self
  have hmem : c = [1, 2, 3] ∨ c = [4] := by simpa using List.mem_of_getElem? hc
  rcases hmem with rfl | rfl
  · exact ⟨htaken i, by decide, _, rfl, by decide⟩
  · exact ⟨htaken i, by decide, _, rfl, by decide⟩

/-- What the command reads of forty zeros is the compressed form. -/
theorem zeros_arrive_compressed :
    ((received factories (pumpEnv.pumpInput false false { mdu := 431 } (readsOf [List.replicate 40 0])).sent).foldl
      (Listener.receive listenerOptions) runningListener).commands[0]? =
        some ⟨[0x42, 0x5a, 0x68, 0x39, 0], true⟩ := by
  decide +kernel

end Sample

/-! ### Output -/

section Output
variable {decode : Bytes → Except Bytes Bytes} {mdu : Nat} {chunks : List Bytes} {p p' : Pump} {sender sender' : Outbox}
  {r : Round} {w w' : CommandOutput} {s s' s'' : InitiatorSession}

def FitsMessage (mdu : Nat) (c : Bytes) : Prop := c.length + 8 ≤ mdu

/-- How far a pump is: it has sent the first chunks, which fit, and stopped only at the end or at one that does not. -/
inductive Pumped (mdu : Nat) (chunks : List Bytes) (p : Pump) (written : Bytes) : Prop where
  | running (sent rest : List Bytes) (split : chunks = sent ++ rest) (written : written = sent.flatten)
      (fits : ∀ c ∈ sent, FitsMessage mdu c) (done : p.done = false) (reads : p.reads = readsOf rest)
  | finished (written : written = chunks.flatten) (fits : ∀ c ∈ chunks, FitsMessage mdu c) (done : p.done = true)
  | stuck {sent rest : List Bytes} {c : Bytes} (split : chunks = sent ++ c :: rest) (written : written = sent.flatten)
      (big : ¬FitsMessage mdu c) (done : p.done = true)

theorem Pumped.flatten_iff {written : Bytes} (h : Pumped mdu chunks p written) (hdone : p.done = true)
    (hchunks : ∀ c ∈ chunks, c ≠ []) : written = chunks.flatten ↔ ∀ c ∈ chunks, FitsMessage mdu c := by
  cases h with
  | running _ _ _ _ _ done => rw [hdone] at done; cases done
  | finished hwritten fits => exact iff_of_true hwritten fits
  | @stuck sent rest c split hwritten big done =>
    have hc : c ∈ chunks := by
      rw [split]
      exact mem_append_right _ mem_cons_self
    refine iff_of_false (fun h => ?_) fun h => big (h c hc)
    rw [hwritten, split, flatten_append, flatten_cons, self_eq_append_right, append_eq_nil_iff] at h
    exact hchunks c hc h.1

def Silent (m : Message) : Prop := (∃ e, m = .error e) ∨ ∃ code, m = .commandExited code

structure Writes (s s' : InitiatorSession) (out err : Bytes) : Prop where
  stdout : s'.stdoutWriter = s.stdoutWriter ++ out
  stderr : s'.stderrWriter = s.stderrWriter ++ err
  state : s'.state ≠ .waitVersion

theorem Writes.refl (hs : s.state ≠ .waitVersion) : Writes s s [] [] :=
  ⟨(append_nil _).symm, (append_nil _).symm, hs⟩

theorem Writes.trans {out out' err err' : Bytes} (h : Writes s s' out err) (h' : Writes s' s'' out' err') :
    Writes s s'' (out ++ out') (err ++ err') := by
  refine ⟨?_, ?_, h'.state⟩
  · rw [h'.stdout, h.stdout, append_assoc]
  · rw [h'.stderr, h.stderr, append_assoc]

theorem handleMessage_silent (decode : Bytes → Except Bytes Bytes) {m : Message} (h : Silent m) (hs : s.state ≠ .waitVersion) :
    Writes s (s.handleMessage decode m) [] [] := by
  rcases h with ⟨e, rfl⟩ | ⟨code, rfl⟩
  · rw [handleMessage]
    split_ifs
    · exact ⟨(append_nil _).symm, (append_nil _).symm, nofun⟩
    · exact ⟨(append_nil _).symm, (append_nil _).symm, hs⟩
    · exact .refl hs
  · rw [handleMessage]
    split_ifs
    · exact .refl hs
    · exact ⟨(append_nil _).symm, (append_nil _).symm, nofun⟩

theorem foldl_silent (decode : Bytes → Except Bytes Bytes) {ms : List Message} (h : ∀ m ∈ ms, Silent m)
    (hs : s.state ≠ .waitVersion) : Writes s (ms.foldl (handleMessage decode) s) [] [] := by
  induction ms generalizing s with
  | nil => exact .refl hs
  | cons m ms ih =>
    obtain ⟨hm, hrest⟩ := forall_mem_cons.mp h
    have hwrites := handleMessage_silent decode hm hs
    exact hwrites.trans (ih hrest hwrites.state)

def chunkMessage (streamID : UInt16) (data : Bytes) : Message := .streamData { streamID, data }

theorem close_carries (p : Pump) (sender : Outbox) (r : Round) : ∃ ms, sender.Carries factories (p.close sender r).1 ms ∧
    Reports ms ∧ (p.close sender r).2 = { p with done := true } := by
  unfold Pump.close
  cases r.closeError with
  | none => exact ⟨[], .refl _ sender, fun _ h => (nomatch h), rfl⟩
  | some text =>
    obtain ⟨ms, hcarries, hms⟩ := carries_report sender (Text.ascii "stream close failed: " ++ text.val) false
      r.errorAttempts (by
        rw [length_append, show (Text.ascii "stream close failed: ").length = 21 from rfl]
        omega)
    exact ⟨ms, hcarries, hms, rfl⟩

theorem round_pumped {written : Bytes} (h : p.round sender r = some (sender', p')) (hp : Pumped sender.mdu chunks p written)
    (hid : p.streamID < 0x4000) (hchunks : ∀ c ∈ chunks, c ≠ [] ∧ c.length ≤ 32 * 1024) (htaken : .taken ∈ r.attempts) :
    p.done = false ∧ p'.streamID = p.streamID ∧ ∃ (data : List Bytes) (reports : List Message),
      Reports reports ∧ sender.Carries factories sender' (data.map (chunkMessage p.streamID) ++ reports) ∧
      Pumped sender.mdu chunks p' (written ++ data.flatten) := by
  have hdone : p.done = false := by
    by_contra hdone
    rw [Pump.round, if_pos (by simpa using hdone)] at h
    cases h
  cases hp with
  | finished _ _ done | stuck _ _ _ done => rw [hdone] at done; cases done
  | running sent rest split hwritten fits _ reads =>
    refine ⟨hdone, ?_⟩
    rw [Pump.round, hdone, if_neg Bool.false_ne_true, reads] at h
    cases rest with
    | nil =>
      obtain ⟨ms, hcarries, hms, hclosed⟩ := close_carries { p with reads := [] } sender r
      rw [append_nil] at split
      have h' : ({ p with reads := [] } : Pump).close sender r = (sender', p') := some.inj h
      rw [h'] at hcarries hclosed
      obtain rfl : p' = { p with reads := [], done := true } := hclosed
      refine ⟨rfl, [], ms, hms, hcarries, .finished ?_ (split ▸ fits) rfl⟩
      rw [hwritten, split, flatten_nil, append_nil]
    | cons c rest =>
      have hc : c ∈ chunks := by
        rw [split]
        exact mem_append_right _ mem_cons_self
      obtain ⟨hne, hshort⟩ := hchunks c hc
      have hsend := carries_chunk sender (m := { streamID := p.streamID, data := c }) r.attempts hid hshort
      rw [readsOf, map_cons, cons_append] at h
      dsimp only at h
      rw [if_neg hne] at h
      rcases hresult : sendMessageWithRetry sender (.streamData { streamID := p.streamID, data := c }) r.attempts with
        ⟨sender₁, err⟩
      rw [hresult] at h hsend
      rcases hsend with ⟨hable, rfl, hcarries⟩ | ⟨hnot, ⟨e, rfl⟩, hcarries⟩
      · cases h
        refine ⟨rfl, [c], [], fun _ h => (nomatch h), hcarries, .running (sent ++ [c]) rest ?_ ?_ ?_ rfl rfl⟩
        · rw [split, append_assoc, singleton_append]
        · rw [hwritten, flatten_append]
        · exact forall_mem_append.mpr ⟨fits, forall_mem_singleton.mpr hable.1⟩
      · obtain ⟨ms, hcarries', hms, hclosed⟩ := close_carries { p with reads := readsOf rest } sender₁ r
        have h' : ({ p with reads := readsOf rest } : Pump).close sender₁ r = (sender', p') := some.inj h
        rw [h'] at hcarries' hclosed
        obtain rfl : p' = { p with reads := readsOf rest, done := true } := hclosed
        refine ⟨rfl, [], ms, hms, hcarries.trans hcarries', .stuck split ?_ (fun hfits => hnot ⟨hfits, htaken⟩) rfl⟩
        rw [hwritten, flatten_nil, append_nil]

theorem exit_carries (w : CommandOutput) (wait : WaitResult) (r : Round) :
    ∃ ms, w.sender.Carries factories (w.exit wait r).sender ms ∧ ∀ m ∈ ms, Silent m := by
  have hexit : ∀ {errors sender} code, w.sender.Carries factories sender errors → Reports errors →
      ∃ ms, w.sender.Carries factories (sendMessageWithRetry sender (.commandExited code) r.attempts).1 ms ∧
        ∀ m ∈ ms, Silent m := by
    intro errors sender code hreport herrors
    have hlong : ∀ data, (Message.commandExited code).pack = some data → data.length < 65536 := by
      rintro _ ⟨⟩
      rw [Msgpack.pack, Msgpack.packInt]
      split_ifs <;> simp [Msgpack.intBytes]
    obtain ⟨ms, hcarries, hms⟩ := (retry_cases (m := .commandExited code) trivial hlong sender r.attempts).carries
    exact ⟨errors ++ ms, hreport.trans hcarries, forall_mem_append.mpr
      ⟨fun m hm => .inl (herrors m hm), fun m hm => .inr ⟨code, hms m hm⟩⟩⟩
  rcases wait with _ | code | text
  · exact hexit 0 (.refl _ _) (forall_mem_nil _)
  · exact hexit code (.refl _ _) (forall_mem_nil _)
  · obtain ⟨errors, hreport, herrors⟩ := carries_report w.sender text.val true r.errorAttempts
      (text.property.trans (by decide))
    exact hexit 127 hreport herrors

theorem handleMessage_chunk (id : UInt16) (data : Bytes) (hs : s.state ≠ .waitVersion) :
    s.handleMessage decode (chunkMessage id data) = s.appendStreamLocked { streamID := id, data } := by
  rw [chunkMessage, handleMessage, if_neg hs]
  rfl

theorem foldl_chunks (decode : Bytes → Except Bytes Bytes) (id : UInt16) {f g : Bytes → Bytes}
    (hchunk : ∀ {s : InitiatorSession} c, s.state ≠ .waitVersion →
      Writes s (s.appendStreamLocked { streamID := id, data := c }) (f c) (g c)) (data : List Bytes)
    {reports : List Message} (hreports : Reports reports) (hs : s.state ≠ .waitVersion) :
    Writes s ((data.map (chunkMessage id) ++ reports).foldl (handleMessage decode) s) (data.flatMap f)
      (data.flatMap g) := by
  induction data generalizing s with
  | nil => exact foldl_silent decode (fun m hm => .inl (hreports m hm)) hs
  | cons c data ih =>
    rw [map_cons, cons_append, foldl_cons, handleMessage_chunk id c hs]
    exact (hchunk c hs).trans (ih (hchunk c hs).state)

structure Relayed (decode : Bytes → Except Bytes Bytes) (s₀ : InitiatorSession) (mdu : Nat) (outs errs : List Bytes)
    (before after : List Message) (w : CommandOutput) : Prop where
  carries : Outbox.Carries factories { mdu } w.sender (before ++ after)
  stdoutID : w.stdout.streamID = streamIDStdout
  stderrID : w.stderr.streamID = streamIDStderr
  state : (before.foldl (InitiatorSession.handleMessage decode) s₀).state ≠ .waitVersion
  stdout : Pumped mdu outs w.stdout (before.foldl (InitiatorSession.handleMessage decode) s₀).stdoutWriter
  stderr : Pumped mdu errs w.stderr (before.foldl (InitiatorSession.handleMessage decode) s₀).stderrWriter
  running : ∀ code, .commandExited code ∉ before
  silent : ∀ m ∈ after, Silent m
  late : after = [] ∨ (w.stdout.done = true ∧ w.stderr.done = true ∧ w.exited = true)

theorem not_exited {data : List Bytes} {reports : List Message} {id : UInt16} (h : Reports reports) (code : Int64) :
    .commandExited code ∉ data.map (chunkMessage id) ++ reports := by
  intro hm
  rcases mem_append.mp hm with hm | hm
  · obtain ⟨c, -, hc⟩ := mem_map.mp hm
    cases hc
  · obtain ⟨e, he⟩ := h _ hm
    cases he

def CommandOutput.Action.attempts : CommandOutput.Action → List Verdict
  | .stdout r | .stderr r | .exit _ r => r.attempts

section Relayed
variable {outs errs : List Bytes} {before after : List Message}

theorem Relayed.extend {new : List Message} {out err : Bytes} (h : Relayed decode s mdu outs errs before [] w)
    (hcarries : w.sender.Carries factories w'.sender new) (hwrites : Writes (before.foldl (handleMessage decode) s)
      ((before ++ new).foldl (handleMessage decode) s) out err) (hnew : ∀ code, .commandExited code ∉ new)
    (hids : w'.stdout.streamID = streamIDStdout ∧ w'.stderr.streamID = streamIDStderr)
    (hout : Pumped mdu outs w'.stdout ((before.foldl (handleMessage decode) s).stdoutWriter ++ out))
    (herr : Pumped mdu errs w'.stderr ((before.foldl (handleMessage decode) s).stderrWriter ++ err)) :
    Relayed decode s mdu outs errs (before ++ new) [] w' := by
  refine ⟨?_, hids.1, hids.2, hwrites.state, hwrites.stdout ▸ hout, hwrites.stderr ▸ herr, fun code hm => ?_,
    fun _ hm => (nomatch hm), .inl rfl⟩
  · rw [append_nil]
    exact (append_nil before ▸ h.carries).trans hcarries
  · rcases mem_append.mp hm with hm | hm
    · exact h.running code hm
    · exact hnew code hm

theorem Relayed.step {a : Action} (h : Relayed decode s mdu outs errs before after w)
    (houts : ∀ c ∈ outs, c ≠ [] ∧ c.length ≤ 32 * 1024) (herrs : ∀ c ∈ errs, c ≠ [] ∧ c.length ≤ 32 * 1024)
    (htaken : .taken ∈ a.attempts) (hstep : w.step a = some w') :
    ∃ before after, Relayed decode s mdu outs errs before after w' := by
  have hmdu : w.sender.mdu = mdu := h.carries.mdu
  cases a with
  | stdout r =>
    obtain ⟨⟨sender, stdout⟩, hround, rfl⟩ := map_eq_some_iff.mp hstep
    obtain ⟨hdone, hid, data, reports, hreports, hcarries, hpumped⟩ := round_pumped hround (hmdu ▸ h.stdout)
      (h.stdoutID ▸ by decide) houts htaken
    rcases h.late with rfl | hlate
    · rw [h.stdoutID] at hcarries hid
      have hwrites := foldl_chunks decode streamIDStdout (f := id) (g := fun _ => [])
        (fun _ hs => ⟨rfl, (append_nil _).symm, hs⟩) data hreports h.state
      rw [← foldl_append, flatMap_id, flatMap_eq_nil_iff.mpr fun _ _ => rfl] at hwrites
      exact ⟨_, [], h.extend hcarries hwrites (not_exited hreports) ⟨hid, h.stderrID⟩ (hmdu ▸ hpumped)
        (by simpa using h.stderr)⟩
    · rw [hdone] at hlate
      cases hlate.1
  | stderr r =>
    obtain ⟨⟨sender, stderr⟩, hround, rfl⟩ := map_eq_some_iff.mp hstep
    obtain ⟨hdone, hid, data, reports, hreports, hcarries, hpumped⟩ := round_pumped hround (hmdu ▸ h.stderr)
      (h.stderrID ▸ by decide) herrs htaken
    rcases h.late with rfl | hlate
    · rw [h.stderrID] at hcarries hid
      have hwrites := foldl_chunks decode streamIDStderr (f := fun _ => []) (g := id)
        (fun _ hs => ⟨(append_nil _).symm, rfl, hs⟩) data hreports h.state
      rw [← foldl_append, flatMap_id, flatMap_eq_nil_iff.mpr fun _ _ => rfl] at hwrites
      exact ⟨_, [], h.extend hcarries hwrites (not_exited hreports) ⟨h.stdoutID, hid⟩
        (by simpa using h.stdout) (hmdu ▸ hpumped)⟩
    · rw [hdone] at hlate
      cases hlate.2.1
  | exit wait r =>
    obtain ⟨hready, heq⟩ := ite_none_right_eq_some.mp hstep
    cases heq
    simp only [Bool.and_eq_true, Bool.not_eq_true'] at hready
    obtain ⟨ms, hcarries, hms⟩ := exit_carries w wait r
    rcases h.late with rfl | hlate
    · refine ⟨before, ms, ?_, h.stdoutID, h.stderrID, h.state, h.stdout, h.stderr, h.running, hms,
        .inr ⟨hready.1.1, hready.1.2, rfl⟩⟩
      exact (append_nil before ▸ h.carries).trans hcarries
    · rw [hready.2] at hlate
      cases hlate.2.2

theorem Relayed.run {as : List Action} (h : Relayed decode s mdu outs errs before after w)
    (houts : ∀ c ∈ outs, c ≠ [] ∧ c.length ≤ 32 * 1024) (herrs : ∀ c ∈ errs, c ≠ [] ∧ c.length ≤ 32 * 1024)
    (htaken : ∀ a ∈ as, .taken ∈ a.attempts) (hrun : run CommandOutput.step w as = some w') :
    ∃ before after, Relayed decode s mdu outs errs before after w' := by
  induction as generalizing w before after with
  | nil => exact ⟨before, after, run_nil.mp hrun ▸ h⟩
  | cons a as ih =>
    obtain ⟨w₁, hstep, hrest⟩ := run_cons.mp hrun
    obtain ⟨ha, has⟩ := forall_mem_cons.mp htaken
    obtain ⟨before₁, after₁, h₁⟩ := h.step houts herrs ha hstep
    exact ih h₁ has hrest

end Relayed

/-! ### The end of the pumps -/

theorem round_reads (h : p.round sender r = some (sender', p')) : p'.reads.length + 1 = p.reads.length := by
  rw [Pump.round] at h
  split_ifs at h
  cases hreads : p.reads with
  | nil =>
    rw [hreads] at h
    cases h
  | cons read reads =>
    rw [hreads] at h
    dsimp only at h
    split at h <;> · cases h; rfl

def CommandOutput.left (w : CommandOutput) : Nat :=
  w.stdout.reads.length + w.stderr.reads.length + (!w.exited).toNat

theorem step_left {a : Action} (h : w.step a = some w') : w'.left + 1 = w.left := by
  cases a with
  | stdout r | stderr r =>
    obtain ⟨⟨sender, pump⟩, hround, rfl⟩ := map_eq_some_iff.mp h
    have hreads := round_reads hround
    simp only [left]
    omega
  | exit wait r =>
    obtain ⟨hready, heq⟩ := ite_none_right_eq_some.mp h
    cases heq
    simp only [Bool.and_eq_true, Bool.not_eq_true'] at hready
    rw [left, left, hready.2]
    rfl

theorem run_left {as : List Action} (h : run step w as = some w') : as.length + w'.left = w.left := by
  induction as generalizing w with
  | nil => rw [run_nil.mp h, length_nil, Nat.zero_add]
  | cons a as ih =>
    obtain ⟨w₁, hstep, hrun⟩ := run_cons.mp h
    rw [length_cons, ← step_left hstep, ← ih hrun]
    omega

theorem Pumped.done_of_round {written : Bytes} (h : Pumped mdu chunks p written) (hround : p.round sender r = none) :
    p.done = true := by
  cases h with
  | finished _ _ done | stuck _ _ _ done => exact done
  | running _ rest _ _ _ done reads =>
    obtain ⟨read, tail, hreads⟩ : ∃ read tail, p.reads = read :: tail := by
      rw [reads]
      cases rest with
      | nil | cons c rest => exact ⟨_, _, rfl⟩
    rw [Pump.round, done, if_neg Bool.false_ne_true, hreads] at hround
    dsimp only at hround
    split at hround <;> cases hround

end Output

def CommandOutput.start (mdu : Nat) (outs errs : List Bytes) : CommandOutput where
  sender := { mdu }
  stdout := { streamID := streamIDStdout, reads := readsOf outs }
  stderr := { streamID := streamIDStderr, reads := readsOf errs }

def Written (decode : Bytes → Except Bytes Bytes) (s : InitiatorSession) (ms : List Message) (out err : Bytes) : Prop :=
  (ms.foldl (InitiatorSession.handleMessage decode) s).stdoutWriter = out ∧
    (ms.foldl (InitiatorSession.handleMessage decode) s).stderrWriter = err

section Output
variable {decode : Bytes → Except Bytes Bytes} {s : InitiatorSession} {mdu : Nat} {outs errs : List Bytes}
  {before after : List Message} {w : CommandOutput}

theorem Relayed.start (decode : Bytes → Except Bytes Bytes) (mdu : Nat) (outs errs : List Bytes)
    (hs : s.state = .waitExit ∧ s.stdoutWriter = [] ∧ s.stderrWriter = []) :
    Relayed decode s mdu outs errs [] [] (.start mdu outs errs) where
  carries := .refl _ _
  stdoutID := rfl
  stderrID := rfl
  state h := nomatch hs.1.symm.trans h
  stdout := .running [] outs rfl hs.2.1 (fun _ h => (nomatch h)) rfl rfl
  stderr := .running [] errs rfl hs.2.2 (fun _ h => (nomatch h)) rfl rfl
  running _ h := nomatch h
  silent _ h := nomatch h
  late := .inl rfl

theorem Relayed.written_iff {ms : List Message} (h : Relayed decode s mdu outs errs before after w)
    (hms : ∀ m ∈ ms, Silent m) (hchunks : ∀ c ∈ outs ++ errs, c ≠ []) (hout : w.stdout.done = true)
    (herr : w.stderr.done = true) :
    Written decode s (before ++ ms) outs.flatten errs.flatten ↔ ∀ c ∈ outs ++ errs, FitsMessage mdu c := by
  obtain ⟨houts, herrs⟩ := forall_mem_append.mp hchunks
  have hwrites := foldl_silent decode hms h.state
  rw [Written, foldl_append, hwrites.stdout, hwrites.stderr, append_nil, append_nil,
    h.stdout.flatten_iff hout houts, h.stderr.flatten_iff herr herrs, forall_mem_append]

/-- With a channel ready in time the initiator writes the output before the exit just when all chunks fit. -/
theorem output_transparent_iff (decode : Bytes → Except Bytes Bytes) (s : InitiatorSession) (mdu : Nat)
    (outs errs : List Bytes) (as : List CommandOutput.Action) (w : CommandOutput)
    (hs : s.state = .waitExit ∧ s.stdoutWriter = [] ∧ s.stderrWriter = [])
    (hchunks : ∀ c ∈ outs ++ errs, c ≠ [] ∧ c.length ≤ 32 * 1024) (htaken : ∀ a ∈ as, .taken ∈ a.attempts)
    (hrun : run CommandOutput.step (.start mdu outs errs) as = some w) : (as.length ≤ outs.length + errs.length + 3 ∧
      ((∀ a, w.step a = none) → w.stdout.done = true ∧ w.stderr.done = true ∧ w.exited = true)) ∧
    (w.stdout.done = true → w.stderr.done = true →
      (Written decode s (received factories w.sender.sent) outs.flatten errs.flatten ↔
        ∀ c ∈ outs ++ errs, FitsMessage mdu c)) ∧
    ∀ before code after, received factories w.sender.sent = before ++ .commandExited code :: after →
      (Written decode s before outs.flatten errs.flatten ↔ ∀ c ∈ outs ++ errs, FitsMessage mdu c) := by
  have hne : ∀ c ∈ outs ++ errs, c ≠ [] := fun c hc => (hchunks c hc).1
  obtain ⟨houts, herrs⟩ := List.forall_mem_append.mp hchunks
  obtain ⟨before, after, h⟩ := (Relayed.start decode mdu outs errs hs).run houts herrs htaken hrun
  have hreceived := h.carries.received_eq rfl
  refine ⟨⟨?_, fun hstuck => ?_⟩, fun hout herr => ?_, fun before' code after' heq => ?_⟩
  · have hleft := run_left hrun
    have hstart : (CommandOutput.start mdu outs errs).left = outs.length + 1 + (errs.length + 1) + 1 := by
      simp [CommandOutput.left, CommandOutput.start, readsOf]
    omega
  · have hstdout := h.stdout.done_of_round (Option.map_eq_none_iff.mp (hstuck (.stdout ⟨[], [], none⟩)))
    have hstderr := h.stderr.done_of_round (Option.map_eq_none_iff.mp (hstuck (.stderr ⟨[], [], none⟩)))
    refine ⟨hstdout, hstderr, ?_⟩
    have hexit := hstuck (.exit .success ⟨[], [], none⟩)
    by_contra hexited
    rw [CommandOutput.step, hstdout, hstderr, Bool.eq_false_of_not_eq_true hexited] at hexit
    cases hexit
  · rw [hreceived]
    exact h.written_iff h.silent hne hout herr
  · -- The exit message is not one of the pumps', so those came before it.
    rw [hreceived, List.append_eq_append_iff] at heq
    obtain ⟨ms, rfl, hafter⟩ : ∃ ms, before' = before ++ ms ∧ after = ms ++ .commandExited code :: after' := by
      rcases heq with ⟨ms, hbefore, hafter⟩ | ⟨ms, hbefore, hafter⟩
      · exact ⟨ms, hbefore, hafter⟩
      · cases ms with
        | nil => exact ⟨[], by rw [List.append_nil, hbefore, List.append_nil], hafter.symm⟩
        | cons m ms =>
          obtain ⟨rfl, -⟩ := List.cons.inj hafter
          exact absurd (hbefore ▸ List.mem_append_right _ List.mem_cons_self) (h.running code)
    have hsilent : ∀ m ∈ ms, Silent m := fun m hm => h.silent m (hafter ▸ List.mem_append_left _ hm)
    rcases h.late with hempty | ⟨hout, herr, -⟩
    · rw [hempty] at hafter
      exact absurd hafter.symm (List.append_ne_nil_of_right_ne_nil _ (List.cons_ne_nil _ _))
    · exact h.written_iff hsilent hne hout herr

end Output

namespace Sample

def ready : Round := { attempts := [.taken] }

def waiting : InitiatorSession := { state := .waitExit }

def undecodable (_ : Bytes) : Except Bytes Bytes := .error []

def rounds : List CommandOutput.Action :=
  [.stdout ready, .stderr ready, .stdout ready, .stdout ready, .stderr ready, .exit .success ready]

theorem output_written : ∃ w, run CommandOutput.step (.start 20 [[1, 2, 3], [4]] [[5]]) rounds = some w ∧
    Written undecodable waiting (received factories w.sender.sent) [1, 2, 3, 4] [5] := by
  refine ⟨_, rfl, ((output_transparent_iff undecodable waiting 20 [[1, 2, 3], [4]] [[5]] rounds _ ⟨rfl, rfl, rfl⟩ (by decide)
    (by decide) rfl).2.1 rfl rfl).mpr ?_⟩
  simp [FitsMessage]

/-- A chunk of thirteen bytes does not fit into a message of twenty; the exit code arrives without it. -/
theorem output_lost : (run CommandOutput.step (.start 20 [List.replicate 13 0x61] [])
      [.stdout ready, .stderr ready, .exit .success ready]).map (fun w =>
        let s := (received factories w.sender.sent).foldl (InitiatorSession.handleMessage undecodable) waiting
        (s.stdoutWriter, s.lastExit)) = some ([], some 0) := by
  decide +kernel

end Sample

end Reticulum.Gornsh
