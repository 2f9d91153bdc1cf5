import Reticulum.Theorems.Resource.Payload
import Reticulum.Transitions

/-! # The status of a resource -/

namespace Reticulum

namespace ResourceStatus

def Terminal (status : ResourceStatus) : Prop := complete.code ≤ status.code

instance (status : ResourceStatus) : Decidable status.Terminal := inferInstanceAs (Decidable (_ ≤ _))

end ResourceStatus

def Outcome.Silent (o : Outcome) (r : Resource) : Prop :=
  o.resource.callback = r.callback ∧ ResourceEffect.callback ∉ o.effects

def Outcome.Reports (o : Outcome) (r : Resource) : Prop :=
  o.resource.callback = r.callback ∧ o.effects.count .callback = if r.callback then 1 else 0

namespace Resource

variable {z : Bzip2} {token : Token} {r : Resource}

theorem silent_of_eq_nil {o : Outcome} (h : o.resource.callback = r.callback) (he : o.effects = []) : o.Silent r :=
  ⟨h, he ▸ List.not_mem_nil⟩

theorem cancelLocked_of_lt (h : r.status.code < ResourceStatus.complete.code) : r.cancelLocked.status = .failed := by
  rw [cancelLocked, if_pos h]

theorem silent_cancelLocked {error : Option ResourceError} : Outcome.Silent ⟨r.cancelLocked, [], error⟩ r := by
  refine silent_of_eq_nil ?_ rfl
  dsimp only [cancelLocked]
  split_ifs <;> rfl

/-! ### The sender -/

/-- What the answer to a request depends on besides the request. -/
def lookup (r : Resource) : List (Option Bytes) × List (Option Bytes) × Nat :=
  (r.parts.map (·.mapHash), r.hashmap, r.receiverMinConsecutiveHeight)

/-- How many of the parts that are asked for there are. -/
def requestedParts (r : Resource) (mapHashes : List Bytes) : Nat :=
  mapHashes.countP fun mapHash => (r.parts.findIdx? fun part => part.mapHash.getD [] == mapHash).isSome

/-- The map hash that a receiver quotes leads to no segment of the hashmap, or to an empty one. -/
def LacksSegment (r : Resource) (lastMapHash : Bytes) : Prop :=
  ∀ segment ∈ (hmuSegmentForMapHash r.parts lastMapHash r.receiverMinConsecutiveHeight).2,
    (hashmapSegment r.hashmap segment).isEmpty

/-- A request for this resource, all of whose parts can be sent. -/
def AnsweredInFull (r : Resource) (offset : Nat) (requestData : Bytes) (sends : Nat → Bool) : Prop :=
  offset + r.hash.length ≤ requestData.length ∧ (requestData.drop offset).take r.hash.length = r.hash ∧
    ∀ i < r.requestedParts (mapHashes (requestData.drop (offset + r.hash.length))), sends i = true

/-- A request for a segment of the hashmap that there is not. -/
def Unanswerable (r : Resource) (requestData : Bytes) (sends : Nat → Bool) : Prop :=
  requestData.head? = some 0xff ∧ r.AnsweredInFull (1 + resourceMapHashLen) requestData sends ∧
    r.LacksSegment ((requestData.drop 1).take resourceMapHashLen)

instance (r : Resource) (requestData : Bytes) (sends : Nat → Bool) : Decidable (r.Unanswerable requestData sends) := by
  unfold Unanswerable AnsweredInFull LacksSegment
  infer_instance

theorem requestedParts_congr {r' : Resource} (h : r'.lookup = r.lookup) (mapHashes : List Bytes) :
    r'.requestedParts mapHashes = r.requestedParts mapHashes := by
  have hparts : r'.parts.map (·.mapHash) = r.parts.map (·.mapHash) := congrArg (·.1) h
  simp only [requestedParts]
  congr! 3 with mapHash
  have hfind : ∀ parts : List ResourcePart, (parts.findIdx? fun part => part.mapHash.getD [] == mapHash) =
      (parts.map (·.mapHash)).findIdx? fun hash => hash.getD [] == mapHash := by
    simp [List.findIdx?_map, Function.comp_def]
  rw [hfind, hfind, hparts]

theorem hmuSegmentForMapHash_congr {parts parts' : List ResourcePart}
    (h : parts'.map (·.mapHash) = parts.map (·.mapHash)) (lastMapHash : Bytes) (start : Nat) :
    hmuSegmentForMapHash parts' lastMapHash start = hmuSegmentForMapHash parts lastMapHash start := by
  have hscanned := congrArg (fun hashes => (hashes.drop start).take collisionGuardSize) h
  simp only [← List.map_drop, ← List.map_take] at hscanned
  have hfind := congrArg (List.findIdx fun hash => hash.getD [] == lastMapHash) hscanned
  have hlength := congrArg List.length hscanned
  rw [List.findIdx_map, List.findIdx_map] at hfind
  rw [List.length_map, List.length_map] at hlength
  simp only [hmuSegmentForMapHash]
  rw [hlength]
  exact hfind ▸ rfl

theorem lacksSegment_congr {r' : Resource} (h : r'.lookup = r.lookup) (lastMapHash : Bytes) :
    r'.LacksSegment lastMapHash ↔ r.LacksSegment lastMapHash := by
  obtain ⟨hparts, hhashmap, hheight⟩ : _ ∧ _ ∧ _ := ⟨congrArg (·.1) h, congrArg (·.2.1) h, congrArg (·.2.2) h⟩
  dsimp only [lookup] at hparts hhashmap hheight
  rw [LacksSegment, LacksSegment, hmuSegmentForMapHash_congr hparts, hhashmap, hheight]

theorem markSent_keeps (i : Nat) : (r.markSent i).status = r.status ∧ (r.markSent i).callback = r.callback ∧
    (r.markSent i).lookup = r.lookup := by
  rw [markSent]
  split_ifs
  · exact ⟨rfl, rfl, rfl⟩
  · refine ⟨rfl, rfl, ?_⟩
    simp only [lookup]
    congr 1
    refine List.ext_getElem (by simp) fun k _ _ => ?_
    simp only [List.getElem_map, List.getElem_modify]
    split_ifs <;> rfl

theorem sendParts_keeps (mapHashes : List Bytes) : ∀ {r : Resource} (sends : Nat → Bool),
    (r.sendParts sends mapHashes).resource.status = r.status ∧ (r.sendParts sends mapHashes).Silent r ∧
      (r.sendParts sends mapHashes).resource.lookup = r.lookup ∧
      ((r.sendParts sends mapHashes).error.isSome = true ↔ ¬∀ i < r.requestedParts mapHashes, sends i = true) := by
  induction mapHashes with
  | nil => exact fun _ => ⟨rfl, silent_of_eq_nil rfl rfl, rfl, by simp [sendParts, requestedParts]⟩
  | cons mapHash rest ih =>
    intro r sends
    rw [sendParts]
    split
    · next hnone =>
      rw [requestedParts, List.countP_cons_of_neg (by simp [hnone])]
      exact ih sends
    · next i hsome =>
      rw [requestedParts, List.countP_cons_of_pos (by simp [hsome]), Nat.forall_lt_succ_left]
      split_ifs with hsend
      · obtain ⟨hstatus, ⟨hcallback, hsilent⟩, hlookup, herror⟩ := ih (r := r.markSent i) fun k => sends (k + 1)
        obtain ⟨hs, hc, hl⟩ := r.markSent_keeps i
        refine ⟨hstatus.trans hs, ⟨hcallback.trans hc, ?_⟩, hlookup.trans hl, ?_⟩
        · intro hmem
          rcases List.mem_cons.mp hmem with h | h
          · cases h
          · exact hsilent h
        · rw [requestedParts_congr hl] at herror
          rw [and_iff_right hsend]
          exact herror
      · exact ⟨rfl, silent_of_eq_nil rfl rfl, rfl, iff_of_true rfl fun h => hsend h.1⟩

/-- A request was served, or the transfer is cancelled. -/
def Served (o : Outcome) (r : Resource) (cancelled : Prop) : Prop :=
  o.Silent r ∧ (cancelled ∧ o.error.isSome = true ∧ o.resource.status = .failed ∨
    ¬cancelled ∧ (o.resource.status = .transferring ∨ o.resource.status = .awaitingProof))

theorem served_of_transferring {o : Outcome} {cancelled : Prop} (hsilent : o.Silent r) (hcancelled : ¬cancelled)
    (hstatus : o.resource.status = .transferring) : Served o r cancelled := ⟨hsilent, .inr ⟨hcancelled, .inl hstatus⟩⟩

theorem sendHmu_served (lastMapHash : Bytes) (sent : Bool) (h : r.status = .transferring) :
    Served (r.sendHmu lastMapHash sent) r (r.LacksSegment lastMapHash) := by
  simp only [sendHmu, LacksSegment]
  cases (hmuSegmentForMapHash r.parts lastMapHash r.receiverMinConsecutiveHeight).2 with
  | none => exact ⟨silent_cancelLocked, .inl ⟨by simp, rfl, cancelLocked_of_lt (h ▸ by decide)⟩⟩
  | some segment =>
    simp only [hmuPacketData, Option.mem_some_iff, forall_eq']
    by_cases hempty : (hashmapSegment r.hashmap segment).isEmpty = true
    · rw [if_pos hempty]
      exact ⟨silent_cancelLocked, .inl ⟨hempty, rfl, cancelLocked_of_lt (h ▸ by decide)⟩⟩
    · rw [if_neg hempty]
      dsimp only
      split_ifs
      · exact served_of_transferring ⟨rfl, by simp⟩ hempty h
      · exact served_of_transferring (silent_of_eq_nil rfl rfl) hempty h

theorem awaitProof_keeps (h : r.status = .transferring ∨ r.status = .awaitingProof) :
    r.awaitProof.callback = r.callback ∧
      (r.awaitProof.status = .transferring ∨ r.awaitProof.status = .awaitingProof) := by
  rw [awaitProof]
  split_ifs
  · exact ⟨rfl, .inr rfl⟩
  · exact ⟨rfl, h⟩

theorem finishRequest_served {parts : Outcome} (hsilent : parts.Silent r)
    (hstatus : parts.resource.status = .transferring) (lastMapHash : Option Bytes) (sends : Nat → Bool) :
    Served (finishRequest parts lastMapHash sends) r
      (¬parts.error.isSome = true ∧ ∃ last ∈ lastMapHash, parts.resource.LacksSegment last) := by
  unfold finishRequest
  split_ifs with herror
  · exact served_of_transferring hsilent (fun h => h.1 herror) hstatus
  · cases lastMapHash with
    | none =>
      obtain ⟨hcallback, hawait⟩ := awaitProof_keeps (.inl hstatus)
      exact ⟨⟨hcallback.trans hsilent.1, hsilent.2⟩, .inr ⟨by simp, hawait⟩⟩
    | some last =>
      obtain ⟨⟨hcallback, hmem⟩, hserved⟩ := sendHmu_served last (sends parts.effects.length) hstatus
      have heffects : ResourceEffect.callback ∉ parts.effects ++
          (parts.resource.sendHmu last (sends parts.effects.length)).effects := by
        intro h
        exact (List.mem_append.mp h).elim hsilent.2 hmem
      rcases hserved with ⟨hlacks, hsome, hfailed⟩ | ⟨hlacks, hactive⟩
      · simp only [hsome, if_true]
        exact ⟨⟨hcallback.trans hsilent.1, heffects⟩, .inl ⟨⟨herror, last, rfl, hlacks⟩, hsome, hfailed⟩⟩
      · obtain ⟨hawaitCallback, hawait⟩ := awaitProof_keeps hactive
        have hserved : ¬(¬parts.error.isSome = true ∧ ∃ l ∈ some last, parts.resource.LacksSegment l) := by
          rintro ⟨-, _, ⟨⟩, h⟩
          exact hlacks h
        dsimp only
        split_ifs
        · exact ⟨⟨hcallback.trans hsilent.1, heffects⟩, .inr ⟨hserved, hactive⟩⟩
        · exact ⟨⟨hawaitCallback.trans (hcallback.trans hsilent.1), heffects⟩, .inr ⟨hserved, hawait⟩⟩

theorem serveRequest_served (h : r.status = .transferring) (offset : Nat) (lastMapHash : Option Bytes)
    (requestData : Bytes) (sends : Nat → Bool) : Served (r.serveRequest offset lastMapHash requestData sends) r
      (r.AnsweredInFull offset requestData sends ∧ ∃ last ∈ lastMapHash, r.LacksSegment last) := by
  rw [serveRequest]
  split_ifs with hshort hother
  · exact served_of_transferring (silent_of_eq_nil rfl rfl) (fun hc => absurd hc.1.1 (Nat.not_le.mpr hshort)) h
  · exact served_of_transferring (silent_of_eq_nil rfl rfl) (fun hc => hother hc.1.2.1) h
  · obtain ⟨hstatus, hsilent, hlookup, herror⟩ :=
      sendParts_keeps (mapHashes (requestData.drop (offset + r.hash.length))) (r := r) sends
    have hserved := finishRequest_served hsilent (hstatus.trans h) lastMapHash sends
    rw [herror, not_not] at hserved
    simp only [lacksSegment_congr hlookup] at hserved
    rwa [AnsweredInFull, and_iff_right (Nat.not_lt.mp hshort), and_iff_right (not_not.mp hother)]

theorem request_status (requestData : Bytes) (sends : Nat → Bool) :
    (r.status = .failed ∨ requestData = []) ∧ (r.request requestData sends).Silent r ∧
        (r.request requestData sends).resource.status = r.status ∨
      (r.status ≠ .failed ∧ requestData ≠ []) ∧
        Served (r.request requestData sends) r (r.Unanswerable requestData sends) := by
  rw [request]
  split_ifs with hfailed
  · exact .inl ⟨.inl hfailed, silent_of_eq_nil rfl rfl, rfl⟩
  · cases requestData with
    | nil => exact .inl ⟨.inr rfl, silent_of_eq_nil rfl rfl, rfl⟩
    | cons marker rest =>
      refine .inr ⟨⟨hfailed, List.cons_ne_nil _ _⟩, ?_⟩
      simp only [List.head?_cons]
      split_ifs with hmarker
      · have hserved := serveRequest_served (r := { r with status := .transferring, retriesLeft := r.maxRetries }) rfl
          (1 + resourceMapHashLen) (some (((marker :: rest).drop 1).take resourceMapHashLen)) (marker :: rest) sends
        simp only [Option.mem_some_iff, exists_eq_left'] at hserved
        rwa [Unanswerable, and_iff_right (show (marker :: rest).head? = some 0xff from congrArg some hmarker)]
      · have hserved := serveRequest_served (r := { r with status := .transferring, retriesLeft := r.maxRetries }) rfl
          1 none (marker :: rest) sends
        have hother : ¬r.Unanswerable (marker :: rest) sends := fun h => hmarker (Option.some.inj h.1)
        exact ⟨hserved.1, .inr ⟨hother, (hserved.2.resolve_left (by simp)).2⟩⟩

theorem validateProof_status (proofData : Bytes) :
    (r.status = .failed ∨ r.status = .complete) ∧ (r.validateProof proofData).Silent r ∧
        (r.validateProof proofData).resource.status = r.status ∨
      ¬(r.status = .failed ∨ r.status = .complete) ∧ (r.validateProof proofData).Reports r ∧
        ((r.validateProof proofData).resource.status = .complete ∨
          (r.validateProof proofData).resource.status = .failed) := by
  by_cases h : r.status = .failed ∨ r.status = .complete
  · rw [validateProof, if_pos h]
    exact .inl ⟨h, silent_of_eq_nil rfl rfl, rfl⟩
  · rw [validateProof, if_neg h]
    refine .inr ⟨h, ⟨rfl, ?_⟩, ?_⟩
    · cases r.callback <;> rfl
    · dsimp only
      split_ifs
      · exact .inl rfl
      · exact .inr rfl

/-! ### The receiver -/

theorem sendRequest_frame (requested : List Bytes) (exhausted sent : Bool) :
    (∃ waiting, (r.sendRequest requested exhausted sent).resource = { r with waitingForHmu := waiting }) ∧
      ((r.sendRequest requested exhausted sent).effects = [] ∨
        ∃ data, (r.sendRequest requested exhausted sent).effects = [.send .resourceReq data]) := by
  unfold sendRequest
  split_ifs
  · split
    · exact ⟨⟨_, rfl⟩, .inl rfl⟩
    · exact ⟨⟨_, rfl⟩, .inr ⟨_, rfl⟩⟩
  · split <;> exact ⟨⟨_, rfl⟩, .inl rfl⟩
  · exact ⟨⟨_, rfl⟩, .inl rfl⟩
  · exact ⟨⟨_, rfl⟩, .inr ⟨_, rfl⟩⟩
  · exact ⟨⟨_, rfl⟩, .inl rfl⟩

variable (sent : Bool)

theorem requestNext_frame : (∃ outstanding waiting, (r.requestNext sent).resource =
      { r with outstandingParts := outstanding, waitingForHmu := waiting }) ∧
      ((r.requestNext sent).effects = [] ∨ ∃ data, (r.requestNext sent).effects = [.send .resourceReq data]) := by
  unfold requestNext
  split_ifs
  · exact ⟨⟨_, _, rfl⟩, .inl rfl⟩
  · exact ⟨⟨_, _, rfl⟩, .inl rfl⟩
  · obtain ⟨⟨waiting, hresource⟩, heffects⟩ := sendRequest_frame (r :=
      { r with outstandingParts := (r.scanWindow r.requestWindow).1.length }) (r.scanWindow r.requestWindow).1
      (r.scanWindow r.requestWindow).2 sent
    exact ⟨⟨_, waiting, hresource⟩, heffects⟩

theorem requestNext_keeps :
    (r.requestNext sent).Silent r ∧ (r.requestNext sent).resource.status = r.status := by
  obtain ⟨⟨outstanding, waiting, hresource⟩, heffects⟩ := r.requestNext_frame sent
  have hsilent : ResourceEffect.callback ∉ (r.requestNext sent).effects := by
    rcases heffects with h | ⟨data, h⟩ <;> simp [h]
  rw [Outcome.Silent, hresource]
  exact ⟨⟨rfl, hsilent⟩, rfl⟩

/-- The map hashes of an update that the receiver waits for; none for one that is ignored or malformed. -/
def awaitedHashes (r : Resource) (plaintext : Bytes) : Option (List Bytes) :=
  if r.status = .failed ∨ ¬ r.waitingForHmu then none
  else if plaintext.length < 32 + 1 then none
  else
    match parseHmu plaintext with
    | .error _ => none
    | .ok update => some (mapHashes update.2)

theorem hashmapUpdate_status (plaintext : Bytes) (sent : Bool) : (r.hashmapUpdate plaintext sent).Silent r ∧
      (r.hashmapUpdate plaintext sent).resource.status = match r.awaitedHashes plaintext with
        | none => r.status
        | some hashes => if hashes.isEmpty then .failed else .transferring := by
  unfold hashmapUpdate awaitedHashes
  split_ifs
  · exact ⟨silent_of_eq_nil rfl rfl, rfl⟩
  · exact ⟨silent_of_eq_nil rfl rfl, rfl⟩
  · cases parseHmu plaintext with
    | error e => exact ⟨silent_of_eq_nil rfl rfl, rfl⟩
    | ok update =>
      dsimp only
      unfold applyHmu
      split_ifs
      · exact ⟨silent_cancelLocked, cancelLocked_of_lt (Nat.lt_of_sub_eq_succ rfl)⟩
      · exact requestNext_keeps sent

variable (data : Bytes)

theorem storePart_keeps :
    (r.storePart data).status = r.status ∧ (r.storePart data).callback = r.callback := by
  rw [storePart]
  cases r.missingPart data <;> exact ⟨rfl, rfl⟩

theorem growWindow_keeps : r.growWindow.status = r.status ∧ r.growWindow.callback = r.callback := by
  rw [growWindow]
  split_ifs <;> exact ⟨rfl, rfl⟩

theorem afterPart_keeps (filled : Bool) : (r.afterPart filled).Silent r ∧ (r.afterPart filled).resource.status = r.status := by
  rw [afterPart]
  split_ifs
  · exact ⟨⟨rfl, by simp⟩, rfl⟩
  · obtain ⟨hstatus, hcallback⟩ := r.growWindow_keeps
    exact ⟨⟨hcallback, by simp⟩, hstatus⟩
  · exact ⟨silent_of_eq_nil rfl rfl, rfl⟩

theorem not_mem_progress (filled : Bool) : ResourceEffect.callback ∉ r.progress filled := by
  rw [progress]
  split_ifs <;> simp

theorem receivePart_status : (r.receivePart data).Silent r ∧ (r.receivePart data).resource.status =
      if r.status = .failed then .failed else receivingStatus r.status := by
  rw [receivePart]
  split_ifs with hfailed
  · exact ⟨silent_of_eq_nil rfl rfl, hfailed⟩
  · obtain ⟨hstatus, hcallback⟩ := storePart_keeps (r := { r with status := receivingStatus r.status }) data
    obtain ⟨⟨hc, hsilent⟩, hs⟩ := afterPart_keeps
      (r := { r with status := receivingStatus r.status }.storePart data) (r.missingPart data).isSome
    refine ⟨⟨hc.trans hcallback, fun hmem => ?_⟩, hs.trans hstatus⟩
    exact (List.mem_append.mp hmem).elim (r.not_mem_progress _) hsilent

/-! ### Assembly, cancellation and timeouts -/

def Assembles (r : Resource) (z : Bzip2) (token : Token) : Prop :=
  match r.unwrap z token with
  | .ok data => fullHash (data ++ r.randomHash) = r.hash
  | .error _ => False

instance (r : Resource) (z : Bzip2) (token : Token) : Decidable (r.Assembles z token) := by
  unfold Assembles
  split <;> infer_instance

theorem inflate_error {data : Bytes} {e : AssemblyFailure} (h : r.inflate z data = .error e) :
    e.1 = .failed ∨ e.1 = .corrupt := by
  by_cases hcompressed : ¬r.compressed
  · rw [inflate, if_pos hcompressed] at h
    cases h
  · rw [inflate, if_neg hcompressed] at h
    split at h <;> cases h
    · exact .inr rfl
    · exact .inl rfl

theorem unwrap_error {e : AssemblyFailure} (h : r.unwrap z token = .error e) : e.1 = .failed ∨ e.1 = .corrupt := by
  unfold unwrap at h
  split at h
  · cases h
    exact .inl rfl
  · split at h
    · cases h
      exact .inl rfl
    · split_ifs at h
      · cases h
        exact .inr rfl
      · exact inflate_error h

theorem cancelCorruptLocked_silent : ResourceEffect.callback ∉ r.cancelCorruptLocked sent := by
  have hreject : ∀ packet, ResourceEffect.callback ∉ reject packet sent := by
    intro packet
    unfold reject
    split
    · split_ifs <;> simp
    · simp
  rw [cancelCorruptLocked]
  cases r.advertisementPacket with
  | none => simp
  | some packet => simp [hreject packet]

theorem conclude_reports (sent : Bool) : (r.conclude data sent).Reports r := by
  refine ⟨rfl, ?_⟩
  rw [conclude, List.count_append]
  split_ifs <;> simp

theorem assemble_status :
    r.Assembles z token ∧ (r.assemble z token sent).Reports r ∧ (r.assemble z token sent).resource.status = .complete ∨
      ¬r.Assembles z token ∧ (r.assemble z token sent).Silent r ∧
        ((r.assemble z token sent).resource.status = .failed ∨
          (r.assemble z token sent).resource.status = .corrupt) := by
  unfold assemble Assembles
  cases hunwrap : r.unwrap z token with
  | error e =>
    obtain ⟨status, cancel⟩ := e
    refine .inr ⟨id, ⟨rfl, ?_⟩, unwrap_error hunwrap⟩
    cases cancel with
    | false => exact List.not_mem_nil
    | true => exact cancelCorruptLocked_silent sent
  | ok data =>
    dsimp only
    split_ifs with hhash
    · exact .inr ⟨hhash, silent_of_eq_nil rfl rfl, .inr rfl⟩
    · exact .inl ⟨not_not.mp hhash, conclude_reports data sent, rfl⟩

theorem cancel_status (linkActive sent : Bool) :
    r.status.Terminal ∧ (r.cancel linkActive sent).Silent r ∧ (r.cancel linkActive sent).resource.status = r.status ∨
      ¬r.status.Terminal ∧ (r.cancel linkActive sent).Reports r ∧
        (r.cancel linkActive sent).resource.status = .failed := by
  by_cases hcorrupt : r.status = .corrupt
  · rw [cancel, if_pos hcorrupt]
    exact .inl ⟨hcorrupt ▸ by decide, ⟨rfl, cancelCorruptLocked_silent sent⟩, rfl⟩
  · by_cases hterminal : ResourceStatus.complete.code ≤ r.status.code
    · rw [cancel, if_neg hcorrupt, if_pos hterminal]
      exact .inl ⟨hterminal, silent_of_eq_nil rfl rfl, rfl⟩
    · rw [cancel, if_neg hcorrupt, if_neg hterminal]
      refine .inr ⟨hterminal, ⟨rfl, ?_⟩, rfl⟩
      split_ifs <;> simp

def GivesUp (r : Resource) (expired sent : Bool) : Prop :=
  match r.status with
  | .none | .queued => True
  | .advertised => expired = true ∧ (r.retriesLeft = 0 ∨ sent = false)
  | .transferring => expired = true ∧ (r.initiator = true ∨ r.retriesLeft = 0)
  | .awaitingProof => expired = true ∧ r.retriesLeft = 0
  | _ => False

instance (r : Resource) (expired sent : Bool) : Decidable (r.GivesUp expired sent) := by
  unfold GivesUp
  split <;> infer_instance

theorem shrinkWindow_keeps : r.shrinkWindow.status = r.status ∧ r.shrinkWindow.callback = r.callback := by
  rw [shrinkWindow]
  split_ifs <;> exact ⟨rfl, rfl⟩

theorem retryRequest_status :
    (r.retryRequest sent).Silent r ∧ (r.retryRequest sent).resource.status = r.status := by
  obtain ⟨⟨hcallback, hmem⟩, hstatus⟩ := requestNext_keeps
    (r := { r.shrinkWindow with retriesLeft := r.retriesLeft - 1, waitingForHmu := false }) sent
  obtain ⟨hs, hc⟩ := r.shrinkWindow_keeps
  exact ⟨⟨hcallback.trans hc, hmem⟩, hstatus.trans hs⟩

theorem watchdogExpired_status (hne : r.status ≠ .none ∧ r.status ≠ .queued) :
    (r.watchdogExpired sent).Silent r ∧
      (r.GivesUp true sent ∧ (r.watchdogExpired sent).resource.status = .failed ∨
        ¬r.GivesUp true sent ∧ (r.watchdogExpired sent).resource.status = r.status) := by
  unfold watchdogExpired GivesUp
  cases hstatus : r.status with
  | none => exact absurd hstatus hne.1
  | queued => exact absurd hstatus hne.2
  | advertised =>
    dsimp only
    split_ifs with hretries
    · exact ⟨silent_cancelLocked, .inl ⟨⟨rfl, .inl hretries⟩, cancelLocked_of_lt (hstatus ▸ by decide)⟩⟩
    · unfold resendAdvertisement
      cases sent with
      | false => exact ⟨silent_cancelLocked, .inl ⟨⟨rfl, .inr rfl⟩, cancelLocked_of_lt (hstatus ▸ by decide)⟩⟩
      | true => exact ⟨⟨rfl, by simp⟩, .inr ⟨fun h => h.2.elim hretries (nomatch ·), hstatus⟩⟩
  | transferring =>
    dsimp only
    split_ifs with hretries
    · exact ⟨silent_cancelLocked, .inl ⟨⟨rfl, hretries⟩, cancelLocked_of_lt (hstatus ▸ by decide)⟩⟩
    · obtain ⟨hsilent, hretry⟩ := r.retryRequest_status sent
      exact ⟨hsilent, .inr ⟨fun h => hretries h.2, hretry.trans hstatus⟩⟩
  | awaitingProof =>
    dsimp only
    split_ifs with hretries
    · exact ⟨silent_cancelLocked, .inl ⟨⟨rfl, hretries⟩, cancelLocked_of_lt (hstatus ▸ by decide)⟩⟩
    · exact ⟨⟨rfl, by simp [queryProof]⟩, .inr ⟨fun h => hretries h.2, hstatus⟩⟩
  | assembling | complete | failed | corrupt | rejected => exact ⟨silent_of_eq_nil rfl rfl, .inr ⟨id, hstatus⟩⟩

theorem watchdogStep_status (expired sent : Bool) : (r.watchdogStep expired sent).Silent r ∧
      (r.GivesUp expired sent ∧ (r.watchdogStep expired sent).resource.status = .failed ∨
        ¬r.GivesUp expired sent ∧ (r.watchdogStep expired sent).resource.status = r.status) := by
  unfold watchdogStep
  cases hstatus : r.status with
  | none | queued =>
    exact ⟨silent_cancelLocked, .inl ⟨by rw [GivesUp, hstatus]; trivial, cancelLocked_of_lt (hstatus ▸ by decide)⟩⟩
  | _ =>
    cases expired with
    | true =>
      have hexpired := r.watchdogExpired_status sent (hstatus ▸ by decide)
      rwa [hstatus] at hexpired
    | false => exact ⟨silent_of_eq_nil rfl rfl, .inr ⟨by simp [GivesUp, hstatus], hstatus⟩⟩

/-! ### Runs -/

open Transitions

def step (z : Bzip2) (r : Resource) (op : ResourceOperation) : Option Resource := some (r.perform z op).resource

/-- A terminal status stays terminal, and a complete resource complete. -/
structure Final (r r' : Resource) : Prop where
  terminal : r.status.Terminal → r'.status.Terminal
  complete : r.status = .complete → r'.status = .complete

theorem Final.refl (r : Resource) : Final r r := ⟨id, id⟩

theorem Final.trans {r₁ r₂ r₃ : Resource} (h₁ : Final r₁ r₂) (h₂ : Final r₂ r₃) : Final r₁ r₃ :=
  ⟨fun h => h₂.terminal (h₁.terminal h), fun h => h₂.complete (h₁.complete h)⟩

variable {r' : Resource}

theorem final_of_eq (h : r'.status = r.status) : Final r r' :=
  ⟨fun ht => h ▸ ht, fun hc => h.trans hc⟩

def Survives (z : Bzip2) (r : Resource) : ResourceOperation → Prop
  | .request requestData sends => r.status.Terminal → r.status = .failed ∨ requestData = [] ∨
      r.status ≠ .complete ∧ r.Unanswerable requestData sends
  | .receivePart _ => r.status ≠ .rejected
  | .hashmapUpdate plaintext _ => r.status.Terminal → r.awaitedHashes plaintext = none ∨
      r.status ≠ .complete ∧ r.awaitedHashes plaintext = some []
  | .assemble token _ => r.status = .complete → r.Assembles z token
  | .requestNext _ | .validateProof _ | .cancel _ _ | .watchdogStep _ _ => True

instance (z : Bzip2) (r : Resource) (op : ResourceOperation) : Decidable (r.Survives z op) := by
  unfold Survives
  cases op <;> infer_instance

theorem final_failed_iff (h : r'.status = .failed ∨ r'.status = .corrupt) :
    Final r r' ↔ r.status ≠ .complete := by
  constructor
  · intro hfinal hcomplete
    rcases h with h | h <;> cases h.symm.trans (hfinal.complete hcomplete)
  · refine fun hne => ⟨fun _ => ?_, fun hcomplete => absurd hcomplete hne⟩
    rcases h with h | h <;> rw [h] <;> decide

theorem final_iff_of_cases {ignored cancelled : Prop} (hsame : ignored → r'.status = r.status)
    (hfailed : ¬ignored → cancelled → r'.status = .failed) (halive : ¬ignored → ¬cancelled → ¬r'.status.Terminal) :
    Final r r' ↔ (r.status.Terminal → ignored ∨ r.status ≠ .complete ∧ cancelled) := by
  by_cases hignored : ignored
  · exact iff_of_true (final_of_eq (hsame hignored)) fun _ => .inl hignored
  by_cases hterminal : r.status.Terminal
  · by_cases hcancelled : cancelled
    · rw [final_failed_iff (.inl (hfailed hignored hcancelled))]
      simp [hterminal, hignored, hcancelled]
    · refine iff_of_false (fun hfinal => halive hignored hcancelled (hfinal.terminal hterminal)) ?_
      simp [hterminal, hignored, hcancelled]
  · exact iff_of_true ⟨fun ht => absurd ht hterminal, fun hc => absurd (hc ▸ by decide) hterminal⟩
      fun ht => absurd ht hterminal

theorem final_request_iff (requestData : Bytes) (sends : Nat → Bool) :
    Final r (r.request requestData sends).resource ↔ r.Survives z (.request requestData sends) := by
  simp only [Survives, ← or_assoc]
  rcases r.request_status requestData sends with ⟨hignored, _, hstatus⟩ | ⟨⟨hfailed, hnil⟩, _, hserved⟩
  · exact final_iff_of_cases (fun _ => hstatus) (absurd hignored) (absurd hignored)
  · refine final_iff_of_cases (fun h => (h.elim hfailed hnil).elim) (fun _ hcancel => ?_) fun _ hcancel => ?_
    · exact (hserved.resolve_right fun h => h.1 hcancel).2.2
    · rcases (hserved.resolve_left fun h => hcancel h.1).2 with h | h <;> rw [h] <;> decide

theorem final_hashmapUpdate_iff (plaintext : Bytes) (sent : Bool) :
    Final r (r.hashmapUpdate plaintext sent).resource ↔ r.Survives z (.hashmapUpdate plaintext sent) := by
  obtain ⟨_, hstatus⟩ := r.hashmapUpdate_status plaintext sent
  refine final_iff_of_cases (fun hnone => ?_) (fun _ hempty => ?_) fun hnone hempty => ?_
  · rw [hstatus, hnone]
  · rw [hstatus, hempty]
    rfl
  · rw [hstatus]
    cases hawaited : r.awaitedHashes plaintext with
    | none => exact absurd hawaited hnone
    | some hashes =>
      cases hashes with
      | nil => exact absurd hawaited hempty
      | cons hash hashes => exact of_decide_eq_false rfl

theorem final_receivePart_iff :
    Final r (r.receivePart data).resource ↔ r.Survives z (.receivePart data) := by
  obtain ⟨_, hstatus⟩ := r.receivePart_status data
  rw [Survives]
  constructor
  · intro hfinal hrejected
    rw [hrejected] at hstatus
    have halive : ¬(r.receivePart data).resource.status.Terminal := by
      rw [hstatus]
      decide
    exact halive (hfinal.terminal (hrejected ▸ by decide))
  · intro hne
    constructor
    · intro hterminal
      rw [hstatus]
      revert hterminal hne
      cases r.status <;> decide
    · intro hcomplete
      rw [hstatus, hcomplete]
      rfl

theorem final_perform_iff (op : ResourceOperation) : Final r (r.perform z op).resource ↔ r.Survives z op := by
  cases op with
  | request requestData sends => exact final_request_iff requestData sends
  | receivePart data => exact final_receivePart_iff data
  | hashmapUpdate plaintext sent => exact final_hashmapUpdate_iff plaintext sent
  | requestNext sent => exact iff_of_true (final_of_eq (r.requestNext_keeps sent).2) trivial
  | validateProof proofData =>
    refine iff_of_true ?_ trivial
    rcases r.validateProof_status proofData with ⟨_, _, hstatus⟩ | ⟨hne, _, hstatus⟩
    · exact final_of_eq hstatus
    · refine ⟨fun _ => ?_, fun h => absurd (.inr h) hne⟩
      rcases hstatus with h | h <;> rw [perform, h] <;> decide
  | cancel linkActive sent =>
    refine iff_of_true ?_ trivial
    rcases r.cancel_status linkActive sent with ⟨_, _, hstatus⟩ | ⟨hterminal, _, hstatus⟩
    · exact final_of_eq hstatus
    · refine (final_failed_iff (.inl hstatus)).mpr fun h => hterminal ?_
      rw [h]
      decide
  | assemble token sent =>
    rcases r.assemble_status sent with ⟨hassembles, _, hstatus⟩ | ⟨hassembles, _, hstatus⟩
    · exact iff_of_true ⟨fun _ => hstatus ▸ by decide, fun _ => hstatus⟩ fun _ => hassembles
    · rw [perform, final_failed_iff hstatus]
      exact ⟨fun hne hcomplete => absurd hcomplete hne, fun h hcomplete => hassembles (h hcomplete)⟩
  | watchdogStep expired sent =>
    refine iff_of_true ?_ trivial
    obtain ⟨_, h⟩ := r.watchdogStep_status expired sent
    rcases h with ⟨hgives, hstatus⟩ | ⟨_, hstatus⟩
    · refine (final_failed_iff (.inl hstatus)).mpr fun h => ?_
      rw [GivesUp, h] at hgives
      exact hgives
    · exact final_of_eq hstatus

theorem final_of_keeps (ops : List ResourceOperation) {r : Resource} (hkeeps : Keeps (step z) (Survives z) r ops)
    (hrun : run (step z) r ops = some r') : Final r r' := by
  refine run_induction (Final r) (fun r₁ op r₂ hsurvives hfinal hstep => ?_) ops (Final.refl r) hkeeps hrun
  cases hstep
  exact hfinal.trans ((final_perform_iff op).mpr hsurvives)

/-- The statuses that end a transfer are kept just when every operation of the run meets the condition. -/
theorem final_throughout_iff (z : Bzip2) (r : Resource) (ops : List ResourceOperation) :
    (∀ as bs cs r₁ r₂, ops = as ++ bs ++ cs → run (step z) r as = some r₁ → run (step z) r₁ bs = some r₂ →
        Final r₁ r₂) ↔
      Keeps (step z) (Survives z) r ops := by
  constructor
  · induction ops generalizing r with
    | nil => exact fun _ => trivial
    | cons op ops ih =>
      intro h
      have hstep : step z r op = some (r.perform z op).resource := rfl
      refine (keeps_cons hstep).mpr ⟨?_, ih _ fun as bs cs r₁ r₂ heq h₁ h₂ => ?_⟩
      · exact (final_perform_iff op).mp (h [] [op] ops r _ rfl rfl rfl)
      · exact h (op :: as) bs cs r₁ r₂ (heq ▸ rfl) (run_cons.mpr ⟨_, hstep, h₁⟩) h₂
  · intro hkeeps as bs cs r₁ r₂ heq h₁ h₂
    rw [heq, List.append_assoc] at hkeeps
    exact final_of_keeps bs (hkeeps.of_append h₁).append_left h₂

end Resource

namespace Sample

open Transitions

def requestAll (s : Resource) : ResourceOperation :=
  .request (0x00 :: s.hash ++ flatHashmap s.hashmap) fun _ => true

def prove (s : Resource) : ResourceOperation := .validateProof (s.hash ++ s.expectedProof)

def runStatus (s : Resource) (ops : List ResourceOperation) : Option ResourceStatus :=
  (run (Resource.step bzip2) (s.advertise true).resource ops).map (·.status)

theorem cancelled_stays_complete : ∃ s, sender false = some s ∧
    ∀ as bs cs r₁ r₂, [requestAll s, prove s, .cancel true true, prove s] = as ++ bs ++ cs →
      run (Resource.step bzip2) (s.advertise true).resource as = some r₁ →
      run (Resource.step bzip2) r₁ bs = some r₂ → Resource.Final r₁ r₂ := by
  have hkeeps : (sender false).all fun s => decide (Keeps (Resource.step bzip2) (Resource.Survives bzip2)
      (s.advertise true).resource [requestAll s, prove s, .cancel true true, prove s]) := by decide +kernel
  obtain ⟨s, hs⟩ : ∃ s, sender false = some s := Option.isSome_iff_exists.mp (by decide +kernel)
  exact ⟨s, hs, (Resource.final_throughout_iff bzip2 _ _).mpr (of_decide_eq_true hkeeps)⟩

/-- A request that arrives once more after the proof takes a complete resource back to waiting for a proof. -/
theorem late_request_revives : ((sender false).bind fun s => runStatus s [requestAll s, prove s]) = some .complete ∧
      ((sender false).bind fun s => runStatus s [requestAll s, prove s, requestAll s]) = some .awaitingProof := by
  decide +kernel

end Sample
end Reticulum
