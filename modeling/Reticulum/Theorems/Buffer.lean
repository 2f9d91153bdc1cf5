import Reticulum.Buffer
import Reticulum.Theorems.Outbox
import Reticulum.Theorems.Resource.Payload

/-! # Streams over a channel are transparent -/

namespace Reticulum

open Transitions List Option

/-! ### Messages -/

namespace StreamDataMessage

variable {z : Bzip2} {m : StreamDataMessage}

theorem and_streamIDMax {id : UInt16} (h : id < 0x4000) : id &&& 0x3fff = id := by
  apply UInt16.toNat_inj.mp
  exact Nat.and_two_pow_sub_one_of_lt_two_pow (n := 14) h

theorem headerVal_and (m : StreamDataMessage) (mask : UInt16) : m.headerVal &&& mask =
    m.streamID &&& (0x3fff &&& mask) ||| (if m.eof then 0x8000 &&& mask else 0) |||
      if m.compressed then 0x4000 &&& mask else 0 := by
  unfold headerVal
  cases m.eof <;> cases m.compressed <;> simp [← UInt16.toBitVec_inj, BitVec.and_or_distrib_right, BitVec.and_assoc]

theorem parse_pack (h : m.streamID < 0x4000) : parse (putUint16 m.headerVal ++ m.data) = some m := by
  have hid : m.headerVal &&& 0x3fff = m.streamID := by
    rw [headerVal_and, show (0x3fff : UInt16) &&& 0x3fff = 0x3fff from rfl, and_streamIDMax h,
      show (0x8000 : UInt16) &&& 0x3fff = 0 from rfl, show (0x4000 : UInt16) &&& 0x3fff = 0 from rfl]
    simp
  have heof : m.headerVal &&& 0x8000 = if m.eof then 0x8000 else 0 := by
    rw [headerVal_and, show (0x3fff : UInt16) &&& 0x8000 = 0 from rfl, UInt16.and_zero]
    cases m.eof <;> cases m.compressed <;> rfl
  have hcompressed : m.headerVal &&& 0x4000 = if m.compressed then 0x4000 else 0 := by
    rw [headerVal_and, show (0x3fff : UInt16) &&& 0x4000 = 0 from rfl, UInt16.and_zero]
    cases m.eof <;> cases m.compressed <;> rfl
  rw [putUint16, cons_append, cons_append, nil_append, parse, beUint16_putUint16, hid, heof, hcompressed]
  obtain ⟨streamID, data, eof, compressed⟩ := m
  cases eof <;> cases compressed <;> rfl

theorem pack_eq (h : m.streamID < 0x4000) : m.pack = some (putUint16 m.headerVal ++ m.data) := by
  have hid : m.streamID.toNat < 0x4000 := h
  refine if_neg fun hlarge : 0x3fff < m.streamID.toNat => ?_
  omega

variable {o : Outbox}

theorem refuses_toMessage {e : SendError} (h : o.Refuses m.toMessage e) (hid : m.streamID < 0x4000)
    (hfits : m.data.length + 8 ≤ o.mdu) : e = .notReady ∨ e = .outlet := by
  have hdata : m.toMessage.data = some (putUint16 m.headerVal ++ m.data) := pack_eq hid
  cases h with
  | notReady => exact .inl rfl
  | outlet => exact .inr rfl
  | pack fails =>
    rw [fails] at hdata
    cases hdata
  | tooBig packs big =>
    rw [packs, some.injEq] at hdata
    rw [hdata, length_append, putUint16, length_cons, length_cons, length_nil] at big
    omega

structure StandsFor (z : Bzip2) (m : StreamDataMessage) (bytes : Bytes) : Prop where
  id : m.streamID < 0x4000
  short : bytes.length ≤ bufferMaxChunkLen
  smaller : m.data.length ≤ bytes.length
  plain : m.compressed = false → m.data = bytes
  packed : m.compressed = true → z.compress defaultCompression bytes = some m.data

theorem StandsFor.unpack_pack {bytes data : Bytes} (hz : z.Inverts) (h : StandsFor z m bytes) (hdata : m.pack = some data) :
    data.length < 65536 ∧ unpack z data = some { m with data := bytes } := by
  rw [pack_eq h.id, some.injEq] at hdata
  subst hdata
  refine ⟨?_, ?_⟩
  · have hshort := h.short
    have hsmaller := h.smaller
    rw [length_append, putUint16, length_cons, length_cons, length_nil]
    rw [bufferMaxChunkLen] at hshort
    omega
  · rw [unpack, parse_pack h.id]
    cases hc : m.compressed with
    | false =>
      dsimp only
      rw [hc, if_neg Bool.false_ne_true, ← h.plain hc, ← hc]
    | true =>
      dsimp only
      rw [hc, if_pos rfl, hz.decompress (h.packed hc), if_pos h.short]

theorem StandsFor.send {bytes : Bytes} (hz : z.Inverts) (h : StandsFor z m bytes) (o : Outbox) :
    ((o.send m.toMessage).2 = none ∧
      Outbox.Carries (streamFactories z) o (o.send m.toMessage).1 [{ m with data := bytes }]) ∨
    ∃ e, (o.send m.toMessage).2 = some e ∧ o.Refuses m.toMessage e ∧
      Outbox.Carries (streamFactories z) o (o.send m.toMessage).1 [] :=
  Outbox.Carries.send o rfl fun _ hdata => h.unpack_pack hz hdata

end StreamDataMessage

/-! ### Writing -/

namespace ChannelWriter

variable {cw : ChannelWriter} {z : Bzip2} {o : Outbox} {mdu : Nat} {remaining : Bytes} {chunk : Chunk}

theorem compressTries_ok {candidateLen : Nat} (tries : List Nat)
    (h : compressTries z mdu remaining candidateLen tries = .ok (some chunk)) :
    chunk.compressed = true ∧ 0 < chunk.processedLen ∧ chunk.processedLen ≤ candidateLen ∧
      z.compress defaultCompression (remaining.take chunk.processedLen) = some chunk.data ∧
      chunk.data.length ≤ mdu ∧ chunk.data.length ≤ chunk.processedLen := by
  induction tries with
  | nil => cases h
  | cons compTry tries ih =>
    rw [compressTries] at h
    split_ifs at h with hzero
    · exact ih h
    · cases hc : z.compress defaultCompression (remaining.take (candidateLen / compTry)) with
      | none =>
        rw [hc] at h
        cases h
      | some compressedChunk =>
        rw [hc] at h
        dsimp only at h
        split_ifs at h with hsmall
        · cases h
          exact ⟨rfl, Nat.pos_of_ne_zero hzero, Nat.div_le_self _ _, hc, hsmall.1.le, hsmall.2.le⟩
        · exact ih h

theorem compressTries_error {candidateLen : Nat} {e : WriteError} (tries : List Nat)
    (h : compressTries z mdu remaining candidateLen tries = .error e) : e = .compress := by
  induction tries with
  | nil => cases h
  | cons compTry tries ih =>
    rw [compressTries] at h
    split_ifs at h with hzero
    · exact ih h
    · split at h
      · cases h
        rfl
      · split_ifs at h with hsmall
        exact ih h

theorem nextChunk_ok (hid : cw.streamID < 0x4000) (hmdu : 0 < mdu) (hne : remaining ≠ [])
    (h : cw.nextChunk z mdu remaining = .ok chunk) :
    0 < chunk.processedLen ∧ chunk.processedLen ≤ remaining.length ∧ chunk.data.length ≤ mdu ∧
      StreamDataMessage.StandsFor z { streamID := cw.streamID, data := chunk.data, compressed := chunk.compressed }
        (remaining.take chunk.processedLen) := by
  have hpos : 0 < remaining.length := length_pos_iff.mpr hne
  have hmax : min remaining.length bufferMaxChunkLen ≤ bufferMaxChunkLen := Nat.min_le_right _ _
  have hall : min remaining.length bufferMaxChunkLen ≤ remaining.length := Nat.min_le_left _ _
  unfold nextChunk at h
  dsimp only at h
  split at h
  · cases h
  · rename_i chunk' htries
    cases h
    obtain ⟨hcompressed, hlen, hle, hz, hfits, hsmall⟩ := compressTries_ok _ htries
    have htake : (remaining.take chunk.processedLen).length = chunk.processedLen := by
      rw [length_take]
      omega
    refine ⟨hlen, hle.trans hall, hfits, hid, ?_, ?_, fun hplain => ?_, fun _ => hz⟩
    · rw [htake]
      exact hle.trans hmax
    · rw [htake]
      exact hsmall
    · rw [hcompressed] at hplain
      cases hplain
  · cases h
    have hlen : 0 < min (min remaining.length bufferMaxChunkLen) mdu := by
      rw [bufferMaxChunkLen]
      omega
    have htake : (remaining.take (min (min remaining.length bufferMaxChunkLen) mdu)).length =
        min (min remaining.length bufferMaxChunkLen) mdu := by
      rw [length_take]
      omega
    refine ⟨hlen, (Nat.min_le_left _ _).trans hall, ?_, hid, ?_, le_rfl, fun _ => rfl, nofun⟩
    · dsimp only
      omega
    · rw [htake]
      omega

theorem nextChunk_error {e : WriteError} (h : cw.nextChunk z mdu remaining = .error e) : e = .compress := by
  unfold nextChunk at h
  dsimp only at h
  split at h
  · rename_i htries
    cases h
    exact compressTries_error _ htries
  · cases h
  · cases h

/-- A `Write` that returns `(n, err)`: the channel accepted messages for the first `n` bytes and no more. -/
structure Wrote (cw : ChannelWriter) (z : Bzip2) (o : Outbox) (p : Bytes) (r : Outbox × Nat × Option WriteError) :
    Prop where
  le : r.2.1 ≤ p.length
  complete : r.2.2 = none → r.2.1 = p.length
  error : r.2.2 = none ∨ r.2.2 = some .compress ∨ r.2.2 = some (.send .notReady) ∨ r.2.2 = some (.send .outlet)
  carries : ∃ ms, o.Carries (streamFactories z) r.1 ms ∧ (∀ m ∈ ms, m.streamID = cw.streamID ∧ m.eof = false) ∧
    ms.flatMap (·.data) = p.take r.2.1

theorem Wrote.nil (cw : ChannelWriter) (z : Bzip2) (o : Outbox) : Wrote cw z o [] (o, 0, none) :=
  ⟨le_rfl, fun _ => rfl, .inl rfl, [], .refl _ o, by simp, rfl⟩

theorem Wrote.stop {o' : Outbox} {e : WriteError} (p : Bytes) (h : o.Carries (streamFactories z) o' [])
    (he : e = .compress ∨ e = .send .notReady ∨ e = .send .outlet) : Wrote cw z o p (o', 0, some e) :=
  ⟨Nat.zero_le _, nofun, .inr (by simpa using he), [], h, by simp, rfl⟩

theorem Wrote.next {o' : Outbox} {m : StreamDataMessage} {n : Nat} {r : Outbox × Nat × Option WriteError}
    (h : o.Carries (streamFactories z) o' [m]) (hid : m.streamID = cw.streamID) (heof : m.eof = false)
    (hn : n ≤ remaining.length) (hdata : m.data = remaining.take n) (hr : Wrote cw z o' (remaining.drop n) r) :
    Wrote cw z o remaining (r.1, n + r.2.1, r.2.2) := by
  have hle := hr.le
  rw [length_drop] at hle
  obtain ⟨ms, hcarries, hms, hbytes⟩ := hr.carries
  refine ⟨by dsimp only; omega, fun hnone => ?_, hr.error, m :: ms, h.trans hcarries, ?_, ?_⟩
  · have hall := hr.complete hnone
    rw [length_drop] at hall
    dsimp only
    omega
  · exact forall_mem_cons.mpr ⟨⟨hid, heof⟩, hms⟩
  · rw [flatMap_cons, hbytes, hdata, take_add]

theorem writeLoop_wrote (hz : z.Inverts) (hid : cw.streamID < 0x4000) (rounds : Nat) {remaining : Bytes}
    (sent : Nat) (hmdu : 8 < o.mdu) (hrounds : remaining.length ≤ rounds) :
    ∃ k o' err, cw.writeLoop z rounds o remaining sent = (o', sent + k, err) ∧ Wrote cw z o remaining (o', k, err) := by
  induction rounds generalizing o remaining sent with
  | zero =>
    rw [length_eq_zero_iff.mp (Nat.le_zero.mp hrounds)]
    exact ⟨0, o, none, rfl, .nil cw z o⟩
  | succ rounds ih =>
    rw [writeLoop]
    split_ifs with hnil
    · rw [hnil]
      exact ⟨0, o, none, rfl, .nil cw z o⟩
    · cases hchunk : cw.nextChunk z (o.mdu - 8) remaining with
      | error e => exact ⟨0, o, some e, rfl, .stop _ (.refl _ o) (.inl (nextChunk_error hchunk))⟩
      | ok chunk =>
        obtain ⟨hpos, hle, hfits, hstands⟩ := nextChunk_ok hid (by omega) hnil hchunk
        have hsend := hstands.send hz o
        dsimp only
        rcases hresult : o.send (StreamDataMessage.toMessage
          { streamID := cw.streamID, data := chunk.data, compressed := chunk.compressed }) with ⟨o₁, err⟩
        rw [hresult] at hsend
        rcases hsend with ⟨rfl, hcarries⟩ | ⟨e, rfl, hrefuses, hcarries⟩
        · have hmdu₁ : 8 < o₁.mdu := by rwa [hcarries.mdu]
          have hrest : (remaining.drop chunk.processedLen).length ≤ rounds := by
            rw [length_drop]
            omega
          obtain ⟨k, o', err, hloop, hwrote⟩ := ih (sent + chunk.processedLen) hmdu₁ hrest
          refine ⟨chunk.processedLen + k, o', err, ?_, .next hcarries rfl rfl hle rfl hwrote⟩
          dsimp only
          rw [hloop, Nat.add_assoc]
        · refine ⟨0, o₁, some (.send e), rfl, .stop _ hcarries (.inr ?_)⟩
          have hfits : chunk.data.length + 8 ≤ o.mdu := by omega
          exact (StreamDataMessage.refuses_toMessage hrefuses hid hfits).imp (congrArg _) (congrArg _)

theorem write_wrote (hz : z.Inverts) (hid : cw.streamID < 0x4000) (p : Bytes) (hmdu : 8 < o.mdu) :
    Wrote cw z o p (cw.write z o p) := by
  obtain ⟨k, o', err, hloop, hwrote⟩ := writeLoop_wrote hz hid p.length 0 hmdu le_rfl
  rw [write, if_neg (Nat.not_le.mpr hmdu), hloop, Nat.zero_add]
  exact hwrote

def written (ps : List Bytes) (results : List (Nat × Option WriteError)) : Bytes :=
  (List.zipWith (fun p result => p.take result.1) ps results).flatten

theorem writeAll_carries (hz : z.Inverts) (hid : cw.streamID < 0x4000) (ps : List Bytes) (hmdu : 8 < o.mdu) :
    ∃ ms, o.Carries (streamFactories z) (cw.writeAll z o ps).1 ms ∧
      (∀ m ∈ ms, m.streamID = cw.streamID ∧ m.eof = false) ∧
      ms.flatMap (·.data) = written ps (cw.writeAll z o ps).2 := by
  induction ps generalizing o with
  | nil => exact ⟨[], .refl _ o, by simp, rfl⟩
  | cons p ps ih =>
    obtain ⟨ms, hcarries, hms, hbytes⟩ := (write_wrote hz hid p hmdu).carries
    obtain ⟨ms', hcarries', hms', hbytes'⟩ := ih (hcarries.mdu ▸ hmdu)
    refine ⟨ms ++ ms', hcarries.trans hcarries', forall_mem_append.mpr ⟨hms, hms'⟩, ?_⟩
    rw [flatMap_append, hbytes, hbytes']
    rfl

theorem written_of_complete (hz : z.Inverts) (hid : cw.streamID < 0x4000) (ps : List Bytes)
    (hmdu : 8 < o.mdu) (hall : ∀ result ∈ (cw.writeAll z o ps).2, result.2 = none) :
    written ps (cw.writeAll z o ps).2 = ps.flatten := by
  induction ps generalizing o with
  | nil => rfl
  | cons p ps ih =>
    have hwrote := write_wrote hz hid p hmdu
    obtain ⟨ms, hcarries, -⟩ := hwrote.carries
    obtain ⟨hfirst, hrest⟩ := forall_mem_cons.mp hall
    have hp : p.take (cw.write z o p).2.1 = p := by rw [hwrote.complete hfirst, take_length]
    have hps := ih (hcarries.mdu ▸ hmdu) hrest
    rw [flatten_cons, ← hps]
    exact congrArg (· ++ _) hp

theorem close_carries (hz : z.Inverts) (hid : cw.streamID < 0x4000) (o : Outbox) : ((cw.close o).2 = none ∧
      o.Carries (streamFactories z) (cw.close o).1 [{ streamID := cw.streamID, eof := true }]) ∨
    (cw.close o).2 ≠ none ∧ o.Carries (streamFactories z) (cw.close o).1 [] := by
  have hstands : StreamDataMessage.StandsFor z { streamID := cw.streamID, eof := true } [] :=
    ⟨hid, Nat.zero_le _, le_rfl, fun _ => rfl, nofun⟩
  rcases hstands.send hz o with haccept | ⟨e, he, -, hcarries⟩
  · exact .inl haccept
  · exact .inr ⟨fun hnone => (nomatch he.symm.trans hnone), hcarries⟩

end ChannelWriter

/-! ### Reading -/

namespace Reading

variable {s s' s'' : Reading} {a : Action} {as : List Action} {id : UInt16} {ms ms' : List StreamDataMessage}

def own (id : UInt16) (as : List Action) : List StreamDataMessage :=
  as.filterMap fun
    | .message sm => if sm.streamID = id then some sm else none
    | .read _ => none

theorem own_append (id : UInt16) (as bs : List Action) : own id (as ++ bs) = own id as ++ own id bs :=
  filterMap_append

theorem step_cases (h : step s a = some s') :
    (∃ sm, a = .message sm ∧ s' = { s with reader := (s.reader.handleMessage sm).1 }) ∨
    ∃ length, a = .read length ∧
      ((s.reader.buffer = [] ∧ s.reader.eof = true ∧ s' = { s with returned := s.returned ++ [.eof] }) ∨
        s.reader.buffer ≠ [] ∧ s' =
          ⟨{ s.reader with buffer := s.reader.buffer.drop length },
            s.returned ++ [.data (s.reader.buffer.take length)]⟩) := by
  cases a with
  | message sm => exact .inl ⟨sm, rfl, (some.inj h).symm⟩
  | read length =>
    refine .inr ⟨length, rfl, ?_⟩
    obtain ⟨⟨reader, result⟩, hread, rfl⟩ := map_eq_some_iff.mp h
    unfold ChannelReader.read at hread
    split_ifs at hread with hempty heof
    · cases hread
      exact .inl ⟨hempty, heof, rfl⟩
    · cases hread
      exact .inr ⟨hempty, rfl⟩

structure Follows (s s' : Reading) (ms : List StreamDataMessage) : Prop where
  id : s'.reader.streamID = s.reader.streamID
  bytes : s'.bytes ++ s'.reader.buffer = s.bytes ++ s.reader.buffer ++ ms.flatMap (·.data)
  eof : s'.reader.eof = (s.reader.eof || ms.any (·.eof))
  returned : s.returned <+: s'.returned

theorem Follows.refl (s : Reading) : Follows s s [] :=
  ⟨rfl, by simp, by simp, prefix_rfl⟩

theorem Follows.trans (h : Follows s s' ms) (h' : Follows s' s'' ms') : Follows s s'' (ms ++ ms') where
  id := h'.id.trans h.id
  bytes := by rw [h'.bytes, h.bytes, flatMap_append, append_assoc]
  eof := by rw [h'.eof, h.eof, any_append, Bool.or_assoc]
  returned := h.returned.trans h'.returned

theorem step_follows (h : step s a = some s') : Follows s s' (own s.reader.streamID [a]) := by
  rcases step_cases h with ⟨sm, rfl, rfl⟩ | ⟨length, rfl, ⟨-, -, rfl⟩ | ⟨-, rfl⟩⟩
  · rw [own, filterMap_cons, filterMap_nil, ChannelReader.handleMessage]
    by_cases hid : sm.streamID = s.reader.streamID
    · simp only [hid, ne_eq, not_true, if_false, if_true]
      exact ⟨rfl, by simp [bytes], by simp, prefix_rfl⟩
    · simp only [hid, ne_eq, not_false_iff, if_true, if_false]
      exact .refl s
  · refine ⟨rfl, ?_, (Bool.or_false _).symm, prefix_append _ _⟩
    simp [own, bytes, ReadResult.bytes]
  · refine ⟨rfl, ?_, (Bool.or_false _).symm, prefix_append _ _⟩
    simp [own, bytes, ReadResult.bytes]

theorem run_follows (h : run step s as = some s') : Follows s s' (own s.reader.streamID as) := by
  induction as generalizing s with
  | nil =>
    rw [run_nil.mp h]
    exact .refl s
  | cons a as ih =>
    obtain ⟨s₁, hstep, hrun⟩ := run_cons.mp h
    have hfirst := step_follows hstep
    have hrest := ih hrun
    rw [hfirst.id] at hrest
    rw [← singleton_append, own_append]
    exact hfirst.trans hrest

theorem eof_reported (h : run step s as = some s') (hnot : .eof ∉ s.returned) (heof : .eof ∈ s'.returned) :
    ∃ as₁ as₂ s₁, as = as₁ ++ as₂ ∧ run step s as₁ = some s₁ ∧ run step s₁ as₂ = some s' ∧
      s₁.reader.buffer = [] ∧ s₁.reader.eof = true := by
  induction as generalizing s with
  | nil =>
    rw [run_nil.mp h] at heof
    exact absurd heof hnot
  | cons a as ih =>
    obtain ⟨s₁, hstep, hrun⟩ := run_cons.mp h
    by_cases hnow : .eof ∈ s₁.returned
    · rcases step_cases hstep with ⟨sm, -, rfl⟩ | ⟨length, -, ⟨hbuffer, hend, -⟩ | ⟨-, rfl⟩⟩
      · exact absurd hnow hnot
      · exact ⟨[], a :: as, s, rfl, rfl, h, hbuffer, hend⟩
      · rcases mem_append.mp hnow with hold | hnew
        · exact absurd hold hnot
        · cases mem_singleton.mp hnew
    · obtain ⟨as₁, as₂, s₂, rfl, hrun₁, hrun₂, hdone⟩ := ih hrun hnow
      exact ⟨a :: as₁, as₂, s₂, rfl, run_cons.mpr ⟨s₁, hstep, hrun₁⟩, hrun₂, hdone⟩

theorem reads_end (lengths : List Nat) {s : Reading} (hend : s.reader.eof = true) (hpos : ∀ n ∈ lengths, 0 < n) :
    ∃ s', run step s (lengths.map .read) = some s' ∧
      (s.reader.buffer.length < lengths.length ∨ .eof ∈ s.returned → .eof ∈ s'.returned) := by
  induction lengths generalizing s with
  | nil => exact ⟨s, rfl, fun h => h.resolve_left (Nat.not_lt_zero _)⟩
  | cons n lengths ih =>
    obtain ⟨hn, hpos⟩ := forall_mem_cons.mp hpos
    by_cases hempty : s.reader.buffer = []
    · obtain ⟨s', hrun, hs'⟩ := ih (s := { s with returned := s.returned ++ [.eof] }) hend hpos
      refine ⟨s', run_cons.mpr ⟨_, ?_, hrun⟩, fun _ => hs' (.inr (by simp))⟩
      simp [step, ChannelReader.read, hempty, hend]
    · obtain ⟨s', hrun, hs'⟩ := ih (s := ⟨{ s.reader with buffer := s.reader.buffer.drop n },
        s.returned ++ [.data (s.reader.buffer.take n)]⟩) hend hpos
      refine ⟨s', run_cons.mpr ⟨_, ?_, hrun⟩, fun h => hs' (h.imp (fun hlt => ?_) fun hmem => ?_)⟩
      · simp [step, ChannelReader.read, hempty]
      · have hlen := length_pos_iff.mpr hempty
        rw [length_cons] at hlt
        rw [length_drop]
        omega
      · exact mem_append_left _ hmem

theorem own_reads (id : UInt16) (lengths : List Nat) : own id (lengths.map .read) = [] := by
  rw [own, filterMap_map]
  exact filterMap_eq_nil_iff.mpr fun _ _ => rfl

/-- What a new reader returns for messages of which at most the last says that the stream ends. -/
theorem run_returns {data last : List StreamDataMessage} (h : run step { reader := { streamID := id } } as = some s)
    (hdata : ∀ m ∈ data, m.eof = false) (hlast : last = [] ∨ ∃ m, last = [m] ∧ m.data = [])
    (hown : own id as <+: data ++ last) :
    s.bytes <+: data.flatMap (·.data) ∧
      (.eof ∈ s.returned → s.bytes = data.flatMap (·.data)) := by
  have hall : (data ++ last).flatMap (·.data) = data.flatMap (·.data) := by
    rcases hlast with rfl | ⟨m, rfl, hm⟩
    · rw [append_nil]
    · simp [hm]
  -- The flag is set only by the last message.
  have hend : ∀ ds : List StreamDataMessage, ds <+: data ++ last → ds.any (·.eof) = true → ds = data ++ last := by
    have hno : ∀ ds : List StreamDataMessage, ds <+: data → ds.any (·.eof) = true → False := by
      intro ds hstart hany
      obtain ⟨m, hm, heof⟩ := any_eq_true.mp hany
      rw [hdata m (hstart.subset hm)] at heof
      cases heof
    intro ds hstart hany
    rcases hlast with rfl | ⟨m, rfl, -⟩
    · rw [append_nil] at hstart
      exact (hno ds hstart hany).elim
    · exact (prefix_concat_iff.mp hstart).resolve_right fun hshort => hno ds hshort hany
  have hbytes : s.bytes ++ s.reader.buffer = (own id as).flatMap (·.data) := (run_follows h).bytes
  have hstart : s.bytes <+: data.flatMap (·.data) := by
    obtain ⟨rest, hrest⟩ := hown
    rw [← hall, ← hrest, flatMap_append, ← hbytes, append_assoc]
    exact prefix_append _ _
  refine ⟨hstart, fun heof => ?_⟩
  obtain ⟨as₁, as₂, s₁, rfl, hrun₁, hrun₂, hempty, hflag⟩ := eof_reported h (by simp) heof
  have hfollows := run_follows hrun₁
  have hwhole : own id as₁ = data ++ last := by
    rw [own_append] at hown
    refine hend _ ((prefix_append _ _).trans hown) ?_
    have hflag' := hfollows.eof
    rwa [hflag, Bool.false_or, eq_comm] at hflag'
  have hbytes₁ : s₁.bytes = data.flatMap (·.data) := by
    have hbytes₁ := hfollows.bytes
    rw [hempty, append_nil] at hbytes₁
    rw [hbytes₁, ← hall, ← hwhole]
    rfl
  have hmore : s₁.bytes <+: s.bytes := by
    obtain ⟨rest, hrest⟩ := (run_follows hrun₂).returned
    rw [bytes, bytes, ← hrest, flatMap_append]
    exact prefix_append _ _
  exact hstart.eq_of_length_le (hbytes₁ ▸ hmore.length_le)

end Reading

/-! ### The stream -/

/-- `Write` counts the accepted bytes, and the reader returns these bytes and, asked often enough, the end. -/
theorem ChannelWriter.stream_transparent {z : Bzip2} (hz : z.Inverts) (cw : ChannelWriter) (hid : cw.streamID < 0x4000) :
    (∀ o p, 8 < o.mdu → Wrote cw z o p (cw.write z o p)) ∧ ∀ o ps, 8 < o.mdu →
      ((∀ result ∈ (cw.writeAll z o ps).2, result.2 = none) → written ps (cw.writeAll z o ps).2 = ps.flatten) ∧
      ∃ ms, o.Carries (streamFactories z) (cw.close (cw.writeAll z o ps).1).1 ms ∧
        ∀ as s, run Reading.step { reader := { streamID := cw.streamID } } as = some s →
          (Reading.own cw.streamID as <+: ms → s.bytes <+: written ps (cw.writeAll z o ps).2 ∧
            (.eof ∈ s.returned → s.bytes = written ps (cw.writeAll z o ps).2)) ∧
          (Reading.own cw.streamID as = ms → (cw.close (cw.writeAll z o ps).1).2 = none → ∀ lengths : List Nat,
            (∀ n ∈ lengths, 0 < n) → s.reader.buffer.length < lengths.length →
            ∃ s', run Reading.step s (lengths.map .read) = some s' ∧ .eof ∈ s'.returned ∧
              s'.bytes = written ps (cw.writeAll z o ps).2) := by
  refine ⟨fun o p => write_wrote hz hid p, fun o ps hmdu => ⟨written_of_complete hz hid ps hmdu, ?_⟩⟩
  obtain ⟨data, hcarries, hdata, hbytes⟩ := writeAll_carries hz hid ps hmdu
  rw [← hbytes]
  obtain ⟨last, hclose, hlast, hclosed⟩ : ∃ last, (cw.writeAll z o ps).1.Carries (streamFactories z)
      (cw.close (cw.writeAll z o ps).1).1 last ∧ (last = [] ∨ ∃ m, last = [m] ∧ m.data = []) ∧
      ((cw.close (cw.writeAll z o ps).1).2 = none → last.any (·.eof) = true) := by
    rcases close_carries hz hid (cw.writeAll z o ps).1 with ⟨-, hclose⟩ | ⟨hfailed, hclose⟩
    · exact ⟨_, hclose, .inr ⟨_, rfl, rfl⟩, fun _ => rfl⟩
    · exact ⟨_, hclose, .inl rfl, fun hnone => absurd hnone hfailed⟩
  refine ⟨data ++ last, hcarries.trans hclose, fun as s hrun => ⟨fun hown => ?_, fun hown hnone lengths hpos hmany => ?_⟩⟩
  · exact Reading.run_returns hrun (fun m hm => (hdata m hm).2) hlast hown
  · have hfollows := Reading.run_follows hrun
    have hflag : s.reader.eof = true := by
      rw [hfollows.eof]
      rw [hown, List.any_append, hclosed hnone, Bool.or_true, Bool.or_true]
    obtain ⟨s', hreads, heof⟩ := Reading.reads_end lengths hflag hpos
    have hwhole : run Reading.step { reader := { streamID := cw.streamID } } (as ++ lengths.map .read) = some s' :=
      run_append.mpr ⟨s, hrun, hreads⟩
    have hown' : Reading.own cw.streamID (as ++ lengths.map .read) = data ++ last := by
      rw [Reading.own_append, Reading.own_reads, List.append_nil, hown]
    obtain ⟨-, hend⟩ := Reading.run_returns hwhole (fun m hm => (hdata m hm).2) hlast (hown' ▸ List.prefix_rfl)
    exact ⟨s', hreads, heof (.inl hmany), hend (heof (.inl hmany))⟩

/-! ### Zeros and other bytes -/

namespace Sample

def zeros : Bytes := List.replicate 40 0

def writes : List Bytes := [zeros, [], (List.range 15).map UInt8.ofNat]

def outbox : Outbox := { mdu := 18, verdicts := List.replicate 4 .taken }

def streamWriter : ChannelWriter := { streamID := 7 }

def streamMessages : List StreamDataMessage :=
  [{ streamID := 7, data := zeros, compressed := true },
    { streamID := 7, data := (List.range 10).map UInt8.ofNat },
    { streamID := 7, data := (List.range' 10 5).map UInt8.ofNat },
    { streamID := 7, eof := true }]

theorem writes_read_back : ∃ ms s, outbox.Carries (streamFactories (.shortening zeros))
      (streamWriter.close (streamWriter.writeAll (.shortening zeros) outbox writes).1).1 ms ∧
    run Reading.step { reader := { streamID := 7 } } (ms.map .message ++ List.replicate 60 (.read 1)) = some s ∧
      .eof ∈ s.returned ∧ s.bytes = writes.flatten := by
  obtain ⟨hwritten, ms, hcarries, hreader⟩ := (ChannelWriter.stream_transparent (Bzip2.shortening_inverts zeros)
    streamWriter (by decide)).2 outbox writes (by decide)
  obtain ⟨payloads, hsent, hconveys, -⟩ := hcarries.sent
  have hms : ms = streamMessages := by
    rw [← hconveys.received_eq, ← List.nil_append payloads]
    refine (congrArg _ hsent.symm).trans ?_
    decide +kernel
  have hmessages : run Reading.step { reader := { streamID := 7 } } (ms.map .message) =
      some { reader := { streamID := 7, buffer := writes.flatten, eof := true } } := by
    rw [hms]
    decide +kernel
  obtain ⟨s, hreads, heof, hbytes⟩ := (hreader _ _ hmessages).2 (by rw [hms]; decide +kernel) (by decide +kernel)
    (List.replicate 60 1) (by simp) (by decide +kernel)
  refine ⟨ms, s, hcarries, run_append.mpr ⟨_, hmessages, ?_⟩, heof, ?_⟩
  · rwa [List.map_replicate] at hreads
  · rw [hbytes, hwritten (by decide +kernel)]

end Sample

end Reticulum
