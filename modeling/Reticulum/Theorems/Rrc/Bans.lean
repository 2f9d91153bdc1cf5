import Reticulum.Theorems.Rrc.Authenticity

/-! # Whether a banned peer is silent

No packet is checked against the bans. -/

namespace Reticulum.Rrc

open Cbor Transitions List Option SessionManager

section

variable {cfg : Config} {hub : Hub} {link l : Link} {p : Bytes}

theorem adoptNick_peers (env : Map) : (adoptNick cfg hub link env).1.sessions.peerOf l = hub.sessions.peerOf l := by
  rcases adoptNick_cases cfg hub link env with heq | ⟨n, -, heq⟩
  · rw [heq]
  · rw [heq, learnNick]
    split
    · rfl
    · rw [peerOf, getSession_updateNickIndex, setNick,
        getSession_update, peerOf]
      split_ifs
      · cases hub.sessions.getSession l <;> rfl
      · rfl

theorem handleMessage_peers (peerHash : Bytes) (env : Map) (t : Int64) :
    (handleMessage cfg hub link peerHash env t).1.sessions.peerOf l = hub.sessions.peerOf l := by
  unfold handleMessage
  split
  · rfl
  · split
    · unfold handleDirectNotice
      split
      · rfl
      · split
        iterate 2
          · split
            · rfl
            · split
              · rfl
              · exact adoptNick_peers _
        all_goals rfl
    · split
      · rfl
      · split
        · rfl
        · split
          · rfl
          · exact adoptNick_peers _

theorem routePacket_peers {now : Float} {remote : Option Bytes} {data : Bytes}
    (hl : (routePacket cfg hub link now remote data).1.sessions.peerOf l = some p) :
    hub.sessions.peerOf l = some p ∨ identifiedPeer hub link remote = some p := by
  unfold routePacket at hl
  split at hl
  · exact .inl hl
  · next hadmit =>
    obtain ⟨hpeer, -, hpeers⟩ := admission_eq_some hadmit
    exact (hpeers l p hl).imp_right fun ⟨_, heq⟩ => heq ▸ hpeer
  · next peerHash sessions hadmit =>
    have hsessions : sessions.peerOf l = some p := by
      dsimp only at hl
      split at hl
      · exact hl
      · split at hl
        · exact hl
        · rwa [handleMessage_peers] at hl
        · exact hl
    obtain ⟨hpeer, -, hpeers⟩ := admission_eq_some hadmit
    exact (hpeers l p hsessions).imp_right fun ⟨_, heq⟩ => heq ▸ hpeer

end

namespace Server

variable {cfg : Config} {s s' s'' : Server} {p : Bytes} {link : Link} {f : Findings}

def ReadsSrc (p payload : Bytes) : Prop :=
  payload.length < 2 ^ 63 ∧ ∃ got : Map, decode payload = .ok (.map got) ∧ got.get kSrc = some (.bytes p)

theorem ReadsSrc.received {sent : Map} (h : ReadsSrc p (encode (.map sent)))
    (hshallow : Shallow maxDecodeDepth (.map sent)) : received 4 sent = some (.bytes p) := by
  obtain ⟨hsize, got, hdecode, hsrc⟩ := h
  exact (received_of_decode (n := 4) (by decide) hshallow hsize hdecode).2.symm.trans hsrc

theorem readsSrc_directNotice {n : DirectNotice} {peerHash : Bytes} {nick : Option Bytes}
    (h : ReadsSrc p (encode (.map (n.envelope peerHash nick)))) : p = peerHash := by
  have hshallow : Shallow maxDecodeDepth (.map (n.envelope peerHash nick)) := by
    intro c hc
    obtain ⟨e, he, hc⟩ := mem_parts_map.mp hc
    have hleaf : e.1.parts = [] ∧ e.2.parts = [] := by
      unfold DirectNotice.envelope at he
      rcases mem_append.mp he with he | he
      · simp only [mem_cons, not_mem_nil, or_false] at he
        rcases he with rfl | rfl | rfl | rfl | rfl | rfl | rfl <;> exact ⟨rfl, rfl⟩
      · split at he
        · cases he
        · obtain rfl := mem_singleton.mp he
          exact ⟨rfl, rfl⟩
    rcases hc with rfl | rfl
    · exact shallow_of_parts_eq_nil hleaf.1
    · exact shallow_of_parts_eq_nil hleaf.2
  have hreceived : Rrc.received 4 (n.envelope peerHash nick) = some (.bytes peerHash) := by
    unfold DirectNotice.envelope Rrc.received
    dsimp only
    split <;> rfl
  exact (Value.bytes.inj (some.inj (hreceived.symm.trans (h.received hshallow)))).symm

/-- The peer gets a link only if that is torn down, and nothing is queued that is read as coming from it. -/
structure Quiet (p : Bytes) (s s' : Server) : Prop where
  peers : ∀ l, s'.hub.sessions.peerOf l = some p → s.hub.sessions.peerOf l = some p ∨ l ∈ s'.torn
  torn : s.torn ⊆ s'.torn
  queued : ∃ new, s'.queued = new ++ s.queued ∧ ∀ item ∈ new, ¬ReadsSrc p item.2

theorem Quiet.of_eq (hpeers : ∀ l, s'.hub.sessions.peerOf l = some p → s.hub.sessions.peerOf l = some p)
    (htorn : s.torn ⊆ s'.torn) (hqueued : s'.queued = s.queued) : Quiet p s s' :=
  ⟨fun l hl => .inl (hpeers l hl), htorn, [], hqueued, nofun⟩

theorem Quiet.trans (h : Quiet p s s') (h' : Quiet p s' s'') : Quiet p s s'' := by
  obtain ⟨new, hnew, hsilent⟩ := h.queued
  obtain ⟨new', hnew', hsilent'⟩ := h'.queued
  refine ⟨fun l hl => ?_, Subset.trans h.torn h'.torn, new' ++ new, by rw [hnew', hnew, append_assoc], ?_⟩
  · rcases h'.peers l hl with hl | hl
    · exact (h.peers l hl).imp_right fun ht => h'.torn ht
    · exact .inr hl
  · exact forall_mem_append.mpr ⟨hsilent', hsilent⟩

theorem proceed_quiet (h : s.proceed f = some s') : Quiet p s s' := by
  obtain ⟨hsame, rfl⟩ := ite_none_right_eq_some.mp h |>.imp_right some.inj
  refine .of_eq (fun l hl => ?_) (List.Subset.refl _) rfl
  obtain ⟨sess, hs, -⟩ := bind_eq_some_iff.mp hl
  have hmem : l ∈ s.hub.sessions.sessions.keys ++ f.others.sessions.sessions.keys :=
    mem_append_right _ (AList.mem_keys.mp (AList.lookup_isSome.mp (isSome_of_eq_some hs)))
  exact (eq_of_beq (all_eq_true.mp hsame l hmem)).symm.trans hl

theorem kline_quiet (peerHash : Bytes) (parts : List Bytes) : Quiet p s (s.handleKline cfg peerHash parts) := by
  have hkeep : ∀ {s' : Server}, s'.hub = s.hub → s'.queued = s.queued → s.torn ⊆ s'.torn → Quiet p s s' :=
    fun hhub hqueued htorn => .of_eq (fun l hl => hhub ▸ hl) htorn hqueued
  have hsame : Quiet p s s := hkeep rfl rfl (List.Subset.refl _)
  have hban : ∀ h : Option Bytes, Quiet p s (h.elim s s.addBan) := by
    rintro (_ | h)
    · exact hsame
    · exact hkeep rfl rfl (List.Subset.refl _)
  unfold handleKline
  split
  · split
    · split_ifs
      · unfold klineAdd
        split
        · next targetLink _ =>
          refine (hban (s.hub.sessions.peerOf targetLink)).trans (.of_eq (fun _ hl => hl) ?_ rfl)
          exact subset_cons_self _ _
        · exact hsame
        · exact hban _
      · unfold klineDel
        split
        · exact hkeep rfl rfl (List.Subset.refl _)
        · exact hsame
      · exact hsame
    · exact hsame
  · exact hsame

theorem command_quiet {peerHash text : Bytes} (hp : peerHash ≠ p)
    (h : s.handleOperatorCommand cfg link peerHash text f = some s') : Quiet p s s' := by
  have hsame : Quiet p s s := .of_eq (fun _ hl => hl) (List.Subset.refl _) rfl
  unfold handleOperatorCommand at h
  split at h
  · exact some.inj h ▸ hsame
  · dsimp only at h
    split_ifs at h
    · cases h
      unfold reload
      split
      · exact .of_eq (fun _ hl => hl) (List.Subset.refl _) rfl
      · exact hsame
    · exact some.inj h ▸ hsame
    · exact some.inj h ▸ kline_quiet peerHash _
    · cases h
      unfold sendDirectNotice
      split
      · next n _ =>
        dsimp only
        split
        · refine ⟨fun _ hl => .inl hl, List.Subset.refl _, [_], rfl, fun item hitem => ?_⟩
          obtain rfl := mem_singleton.mp hitem
          exact fun hreads => hp (readsSrc_directNotice hreads).symm
        · exact hsame
      · exact hsame
    · exact proceed_quiet h

theorem onPacket_quiet {now : Float} {remote : Option Bytes} {data : Bytes} (hp : identifiedPeer s.hub link remote ≠ some p)
    (hkept : ∀ env peerHash, decodeEnvelope data = .ok env → identifiedPeer s.hub link remote = some peerHash →
      Kept 4 (some (.bytes peerHash)) env) (h : s.onPacket cfg link now remote data f = some s') : Quiet p s s' := by
  have hpeers : ∀ l, (routePacket cfg s.hub link now remote data).1.sessions.peerOf l = some p →
      s.hub.sessions.peerOf l = some p := fun l hl => (routePacket_peers hl).resolve_right hp
  have hforward : ∀ recipients payload, (routePacket cfg s.hub link now remote data).2 = .forward recipients payload →
      ¬ReadsSrc p payload := by
    intro recipients payload hforward hreads
    obtain ⟨peerHash, env, sent, hpeer, hdecode, hsent, rfl, -⟩ := sent_of_routePacket hforward
    have hsrc := hsent.src.mpr (hkept env peerHash hdecode hpeer)
    have heq := some.inj (hsrc.symm.trans (hreads.received hsent.tidy.shallow))
    exact hp (hpeer.trans (congrArg some (Value.bytes.inj heq)))
  unfold onPacket at h
  generalize routePacket cfg s.hub link now remote data = routed at h hpeers hforward
  obtain ⟨hub, outcome⟩ := routed
  have hrouted : Quiet p s { s with hub } := .of_eq hpeers (List.Subset.refl _) rfl
  cases outcome with
  | ignored | error => exact some.inj h ▸ hrouted
  | handled => exact hrouted.trans (proceed_quiet h)
  | forward recipients payload =>
    cases h
    refine ⟨fun l hl => .inl (hpeers l hl), List.Subset.refl _, _, rfl, fun item hitem => ?_⟩
    obtain ⟨l, -, rfl⟩ := mem_map.mp hitem
    exact hforward recipients payload rfl
  | command room text =>
    dsimp only at h
    split at h
    · next peerHash hpeer => exact hrouted.trans (command_quiet (fun heq => hp (heq ▸ hpeer)) h)
    · exact some.inj h ▸ hrouted

/-- The peer is banned and all its links are torn down. -/
structure Silenced (p : Bytes) (s : Server) : Prop where
  banned : s.isBanned p = true
  torn : ∀ l, s.hub.sessions.peerOf l = some p → l ∈ s.torn

/-- No packet is routed that came on a link before it was torn down, or before the hub knew who is at the other end; no
    envelope has a second source; and the ban is not removed. -/
def Enforced (cfg : Config) (p : Bytes) (s : Server) (a : Action) : Prop :=
  (∀ s', s.step cfg a = some s' → s'.isBanned p = true) ∧
    match a with
    | .packet link _ remote data _ =>
      link ∉ s.torn ∧ (identifiedPeer s.hub link remote = some p → s.hub.sessions.peerOf link = some p) ∧
        ∀ env peerHash, decodeEnvelope data = .ok env → identifiedPeer s.hub link remote = some peerHash →
          Kept 4 (some (.bytes peerHash)) env
    | _ => True

theorem identified_quiet (hban : s.isBanned p = true) (identity : Option Bytes) :
    Quiet p s (s.onRemoteIdentified link identity) := by
  unfold onRemoteIdentified SessionManager.onRemoteIdentified
  split
  next banned peer sessions heq =>
  split at heq
  · next sess h hs =>
    cases heq
    obtain ⟨hself, hother⟩ := repeers_setPeer (h := h) hs
    refine ⟨fun l hl => ?_, ?_, [], rfl, nofun⟩
    · by_cases hlink : l = link
      · subst hlink
        obtain rfl := some.inj (hself.symm.trans hl)
        refine .inr ?_
        rw [if_pos hban]
        exact mem_cons_self
      · exact .inl ((hother l hlink).symm.trans hl)
    · dsimp only
      split
      · exact subset_cons_self _ _
      · exact List.Subset.refl _
  · cases heq
    exact .of_eq (fun _ hl => hl) (List.Subset.refl _) rfl

theorem step_quiet {a : Action} (hs : Silenced p s) (ha : Enforced cfg p s a) (h : s.step cfg a = some s') :
    Quiet p s s' := by
  cases a with
  | established link now =>
    cases h
    have hpeers : Repeers s.hub.sessions link none
        (s.hub.sessions.onLinkEstablished link now cfg.rateLimitMsgsPerMinute) :=
      repeers_insert { welcomed := false, rooms := [], peer := none, nick := none } rfl
    exact .of_eq (fun _ => hpeers.known) (List.Subset.refl _) rfl
  | identified link identity => exact some.inj h ▸ identified_quiet hs.banned identity
  | closed link rooms =>
    cases h
    exact .of_eq (fun _ => (onLinkClosed_cases s.hub.sessions link cfg.unicode).1.known) (List.Subset.refl _) rfl
  | packet link now remote data f =>
    obtain ⟨-, htorn, hknown, hkept⟩ := ha
    exact onPacket_quiet (fun hp => htorn (hs.torn link (hknown hp))) hkept h

theorem Silenced.quiet (hs : Silenced p s) (hban : s'.isBanned p = true) (h : Quiet p s s') : Silenced p s' := by
  refine ⟨hban, fun l hl => ?_⟩
  rcases h.peers l hl with hl | hl
  · exact h.torn (hs.torn l hl)
  · exact hl

/-- While the ban is enforced, nothing that names the peer as its source is queued. -/
theorem banned_silent (cfg : Config) (p : Bytes) (s s' : Server) (hs : Silenced p s) (as : List Action)
    (hkeeps : Keeps (step cfg) (Enforced cfg p) s as) (hrun : run (step cfg) s as = some s') :
    ∃ new, s'.queued = new ++ s.queued ∧ ∀ item ∈ new, ¬ReadsSrc p item.2 := by
  have hstart : Quiet p s s := .of_eq (fun _ hl => hl) (List.Subset.refl _) rfl
  refine (run_induction (fun s₁ => Silenced p s₁ ∧ Quiet p s s₁) ?_ as ⟨hs, hstart⟩ hkeeps hrun).2.queued
  intro s₁ a s₂ ha ⟨hs₁, hquiet⟩ hstep
  have hnext := step_quiet hs₁ ha hstep
  exact ⟨hs₁.quiet (ha.1 s₂ hstep) hnext, hquiet.trans hnext⟩

def spoken (body : Bytes) : Bytes :=
  [0xa7, 0, 1, 1, 20, 2, 0x48, 1, 2, 3, 4, 5, 6, 7, 8, 3, 0, 4, 0x50] ++ alice ++ [5, 0x64] ++ Text.ascii "room" ++
    [6, 0x60 + UInt8.ofNat body.length] ++ body

/-- Alice is a server operator on link 1, and bob has the other links. -/
def sampleServer (links : List Link) : Server where
  hub :=
    { sessions :=
        { sessions := links.foldl (fun table l => table.insert l (sampleSession bob)) (AList.insert 1 (sampleSession alice) ∅)
          rate := ∅
          indexByHash := links.foldl (fun table l => table.insert bob l) ∅
          indexByNick := ∅ }
      rooms :=
        { rooms := AList.insert (Text.ascii "room") (1 :: links) ∅
          roomState := AList.insert (Text.ascii "room") {} ∅
          roomRegistry := ∅
          trusted := [hexKey alice] } }

def say (link : Link) (text : String) : Action :=
  .packet link 0 none (spoken (Text.ascii text)) { others := (sampleServer []).hub }

def klined : Server := { sampleServer [2] with banned := [hexKey bob], torn := [2] }

theorem silenced_klined : Silenced bob klined := by
  refine ⟨rfl, fun l hl => ?_⟩
  by_cases h₂ : l = 2
  · exact mem_singleton.mpr h₂
  · by_cases h₁ : l = 1
    · subst h₁
      cases hl
    · have hnone : klined.hub.sessions.getSession l = none := by
        refine (AList.lookup_insert_ne h₂).trans ((AList.lookup_insert_ne h₁).trans ?_)
        exact AList.lookup_empty l
      rw [peerOf, hnone] at hl
      cases hl

set_option maxRecDepth 20000 in
theorem enforced_say : Keeps (step sampleConfig) (Enforced sampleConfig bob) klined [say 1 "hi"] := by
  have hpeer : identifiedPeer klined.hub 1 none = some alice := rfl
  refine ⟨⟨fun s' hs' => ?_, by decide, fun h => ?_, fun env peerHash hdecode h => ?_⟩, fun _ _ => trivial⟩
  · obtain rfl := some.inj (hs'.symm.trans rfl)
    rfl
  · cases hpeer.symm.trans h
  · obtain rfl := some.inj (hpeer.symm.trans h)
    obtain rfl := Except.ok.inj (hdecode.symm.trans rfl)
    intro q hq
    obtain rfl := some.inj (hq.symm.trans rfl)
    exact .inl rfl

set_option maxRecDepth 20000 in
theorem klined_silent : ∃ s', run (step sampleConfig) klined [say 1 "hi"] = some s' ∧
    ∃ new, s'.queued = new ++ klined.queued ∧ ∀ item ∈ new, ¬ReadsSrc bob item.2 :=
  ⟨_, rfl, banned_silent sampleConfig bob klined _ silenced_klined [say 1 "hi"] enforced_say rfl⟩

set_option maxRecDepth 20000 in
/-- Bob has two links. The ban tears one of them down, and what bob says on the other one is still forwarded. -/
theorem second_link_speaks : ∃ s₁ s₂ payload,
    (sampleServer [2, 3]).step sampleConfig (say 1 "/kline add 020202") = some s₁ ∧ s₁.isBanned bob = true ∧
      s₁.torn = [3] ∧ s₁.step sampleConfig (say 2 "hi") = some s₂ ∧
      s₂.queued = [(1, payload), (2, payload), (3, payload)] ∧ ReadsSrc bob payload :=
  ⟨_, _, _, rfl, rfl, rfl, rfl, rfl, by decide, _, rfl, rfl⟩

end Server
end Reticulum.Rrc
