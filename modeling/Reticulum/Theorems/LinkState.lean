import Reticulum.LinkState

/-! # The life of a link -/

namespace Reticulum.Link

open Transitions List Option

variable {crypto : LinkCrypto} {l l' : Link} {data : Bytes}

/-! ### Sections -/

structure Open (l l' : Link) : Prop where
  closed : l'.status = .closed ↔ l.status = .closed
  closures : l'.closures = l.closures
  callback : l'.closedCallback = l.closedCallback

theorem Open.refl (l : Link) : Open l l := ⟨Iff.rfl, rfl, rfl⟩

theorem Open.trans {l'' : Link} (h : Open l l') (h' : Open l' l'') : Open l l'' :=
  ⟨h'.closed.trans h.closed, h'.closures.trans h.closures, h'.callback.trans h.callback⟩

theorem open_loadPeer (l : Link) (pub sigPub : Bytes) : Open l (l.loadPeer pub sigPub).1 := by
  rw [loadPeer]
  split
  · exact ⟨Iff.rfl, rfl, rfl⟩
  · dsimp only
    split <;> exact ⟨Iff.rfl, rfl, rfl⟩

theorem open_handshake (crypto : LinkCrypto) (l : Link) : Open l (l.handshake crypto).1 := by
  rw [handshake]
  split
  · exact Open.refl l
  rename_i hstatus
  have hopen : l.status ≠ .closed := by
    intro hclosed
    rw [hclosed] at hstatus
    exact hstatus ⟨by decide, by decide⟩
  split
  · exact Open.refl l
  split
  · exact ⟨Iff.rfl, rfl, rfl⟩
  split
  · exact ⟨Iff.rfl, rfl, rfl⟩
  split
  · exact ⟨iff_of_false (fun h => nomatch h) hopen, rfl, rfl⟩
  · exact ⟨Iff.rfl, rfl, rfl⟩

theorem open_validateProof (l : Link) (data : Bytes) : Open l (l.validateProof crypto data).1 := by
  rw [validateProof]
  split
  · exact Open.refl l
  rename_i hpending
  split
  · exact Open.refl l
  have hload := open_loadPeer l ((data.drop 64).take 32) (l.destinationKey.drop 32)
  have hshake := hload.trans (open_handshake crypto _)
  dsimp only
  split
  · exact hload
  split
  · exact hshake
  split
  · exact hshake
  · refine ⟨iff_of_false (fun h => nomatch h) fun hclosed => hpending ?_, hshake.closures, hshake.callback⟩
    rw [hclosed]
    decide

theorem open_noteInbound (l : Link) (context : UInt8) (data : Bytes) : Open l (l.noteInbound context data) := by
  rw [noteInbound]
  split
  · exact ⟨LinkStatus.revive_eq_closed, rfl, rfl⟩
  · exact Open.refl l

theorem exec_cases {t : Point} {input : Bool} {next : List Point} (h : l.exec crypto t input = some (l', next)) :
    (t = .finishRTT ∧ l' = { l with status := .active }) ∨ Open l l' ∨ (l.status ≠ .closed ∧ l' = l.close) := by
  cases t with
  | receive context data =>
    cases h
    exact .inr (.inl (open_noteInbound l context data))
  | validateProof data =>
    cases h
    exact .inr (.inl (open_validateProof l data))
  | handleRTT =>
    rw [exec] at h
    split at h <;> obtain ⟨rfl, -⟩ := Prod.mk.inj (some.inj h) <;> exact .inr (.inl (Open.refl l))
  | finishRTT =>
    cases h
    exact .inl ⟨rfl, rfl⟩
  | watchdogStep =>
    rw [exec] at h
    split at h <;> rename_i hstatus <;> cases h
    · exact .inr (.inl (Open.refl l))
    · split
      · exact .inr (.inr ⟨by rw [hstatus]; decide, rfl⟩)
      · exact .inr (.inl (Open.refl l))
    · split
      · exact .inr (.inr ⟨by rw [hstatus]; decide, rfl⟩)
      · exact .inr (.inl (Open.refl l))
    · split
      · exact .inr (.inl ⟨iff_of_false nofun (by rw [hstatus]; decide), rfl, rfl⟩)
      · exact .inr (.inl (Open.refl l))
    · exact .inr (.inl (Open.refl l))
  | closeStale | teardown =>
    obtain ⟨heq, -⟩ := Prod.mk.inj (some.inj h)
    split_ifs at heq with hclosed
    · exact .inr (.inl (heq ▸ Open.refl l))
    · exact .inr (.inr ⟨hclosed, heq.symm⟩)

/-! ### Closing -/

/-- The callback has run once if the link is closed. -/
structure Sound (l : Link) : Prop where
  callback : l.closedCallback = true
  closures : l.closures = if l.status = .closed then 1 else 0

def Timely (c : Threads.Config Link Point) : Threads.Action Point Bool → Prop
  | .advance .finishRTT _ => c.shared.status ≠ .closed
  | _ => True

instance (c : Threads.Config Link Point) : ∀ a, Decidable (Timely c a)
  | .advance .finishRTT _ => inferInstanceAs (Decidable (c.shared.status ≠ .closed))
  | .advance (.receive _ _) _ | .advance (.validateProof _) _ | .advance .handleRTT _ | .advance .watchdogStep _
  | .advance .closeStale _ | .advance .teardown _ | .start _ => isTrue trivial

variable {t : Point} {input : Bool} {next : List Point}

theorem sound_exec (hl : l.Sound) (h : l.exec crypto t input = some (l', next))
    (htimely : t = .finishRTT → l.status ≠ .closed) : l'.Sound := by
  obtain ⟨hcallback, hclosures⟩ := hl
  rcases exec_cases h with ⟨ht, rfl⟩ | hopen | ⟨hne, rfl⟩
  · rw [if_neg (htimely ht)] at hclosures
    exact ⟨hcallback, hclosures⟩
  · refine ⟨hopen.callback.trans hcallback, ?_⟩
    rw [hopen.closures, hclosures]
    exact if_congr hopen.closed.symm rfl rfl
  · rw [if_neg hne] at hclosures
    refine ⟨hcallback, ?_⟩
    rw [close, if_pos hcallback, hclosures]
    rfl

theorem closed_exec (hclosed : l.status = .closed) (h : l.exec crypto t input = some (l', next))
    (ht : t ≠ .finishRTT) : l'.status = .closed := by
  rcases exec_cases h with ⟨heq, -⟩ | hopen | ⟨hne, -⟩
  · exact absurd heq ht
  · exact hopen.closed.mpr hclosed
  · exact absurd hclosed hne

variable {c c' : Threads.Config Link Point} {a : Threads.Action Point Bool} {as : List (Threads.Action Point Bool)}

theorem sound_step (hc : c.shared.Sound) (htimely : Timely c a) (h : (system crypto).step c a = some c') :
    c'.shared.Sound := by
  cases a with
  | start t =>
    obtain ⟨-, rfl⟩ := Threads.System.step_start.mp h
    exact hc
  | advance t input =>
    obtain ⟨-, l, next, hexec, rfl⟩ := Threads.System.step_advance.mp h
    exact sound_exec hc hexec fun ht => by
      subst ht
      exact htimely

theorem closed_step (hc : c.shared.status = .closed) (htimely : Timely c a)
    (h : (system crypto).step c a = some c') : c'.shared.status = .closed := by
  cases a with
  | start t =>
    obtain ⟨-, rfl⟩ := Threads.System.step_start.mp h
    exact hc
  | advance t input =>
    obtain ⟨-, l, next, hexec, rfl⟩ := Threads.System.step_advance.mp h
    refine closed_exec hc hexec fun ht => ?_
    subst ht
    exact htimely hc

theorem timely_of_step (h : (system crypto).step c a = some c')
    (hstays : c.shared.status = .closed → c'.shared.status = .closed) : Timely c a := by
  cases a with
  | start t => trivial
  | advance t input =>
    cases t with
    | finishRTT =>
      intro hclosed
      obtain ⟨-, l, next, hexec, rfl⟩ := Threads.System.step_advance.mp h
      cases hexec
      cases hstays hclosed
    | _ => trivial

/-- Whenever the link is closed its callback has been started once, and the link stays closed. -/
def StaysClosed (crypto : LinkCrypto) (c : Threads.Config Link Point) (as : List (Threads.Action Point Bool)) : Prop :=
  ∀ bs cs c₁, as = bs ++ cs → run (system crypto).step c bs = some c₁ → c₁.shared.status = .closed →
    c₁.shared.closures = 1 ∧
      ∀ ds es c₂, cs = ds ++ es → run (system crypto).step c₁ ds = some c₂ → c₂.shared.status = .closed

theorem staysClosed_iff_throughout : StaysClosed crypto c as ↔
    Throughout (system crypto).step (fun c => c.shared.status = .closed → c.shared.closures = 1)
      (fun c c' => c.shared.status = .closed → c'.shared.status = .closed) c as := by
  constructor
  · intro h bs cs c₁ heq hrun
    exact ⟨fun hclosed => (h bs cs c₁ heq hrun hclosed).1,
      fun ds es c₂ heq₂ hrun₂ hclosed => (h bs cs c₁ heq hrun hclosed).2 ds es c₂ heq₂ hrun₂⟩
  · intro h bs cs c₁ heq hrun hclosed
    obtain ⟨honce, hlater⟩ := h bs cs c₁ heq hrun
    exact ⟨honce hclosed, fun ds es c₂ heq₂ hrun₂ => hlater ds es c₂ heq₂ hrun₂ hclosed⟩

/-- A closed link stays closed just when no second section of `HandleRTT` runs on a closed link. -/
theorem staysClosed_iff_timely (crypto : LinkCrypto) {l : Link} (hcallback : l.closedCallback = true)
    (hopen : l.status ≠ .closed) (hzero : l.closures = 0) (as : List (Threads.Action Point Bool))
    {c : Threads.Config Link Point} (hrun : run (system crypto).step ⟨l, []⟩ as = some c) :
    StaysClosed crypto ⟨l, []⟩ as ↔ Keeps (system crypto).step Timely ⟨l, []⟩ as := by
  have hsound : l.Sound := ⟨hcallback, hzero.trans (if_neg hopen).symm⟩
  have hstep : ∀ c a c', c.shared.Sound → (system crypto).step c a = some c' → Timely c a →
      c'.shared.Sound ∧ (c.shared.status = .closed → c'.shared.status = .closed) :=
    fun c a c' hc hstep htimely => ⟨sound_step hc htimely hstep, fun hclosed => closed_step hclosed htimely hstep⟩
  rw [staysClosed_iff_throughout]
  constructor
  · exact Throughout.keeps _ hstep (fun c a c' _ h _ hstays => timely_of_step h hstays) as hsound hrun
  · exact Throughout.of_keeps _ (fun c hc hclosed => hc.closures.trans (if_pos hclosed)) (fun _ => id)
      (fun _ _ _ h₁ h₂ => h₂ ∘ h₁) hstep hsound

namespace Sample

def toyCrypto : LinkCrypto where
  exchange _ pub := some pub
  verify _ signature _ := signature = List.replicate 64 7

def responder : Link where
  initiator := false
  status := .handshake
  linkID := List.replicate 16 1
  prv := []
  destinationKey := List.replicate 64 2
  closedCallback := true

def inTurn : List (Threads.Action Point Bool) :=
  [.start (.receive contextLrrtt []), .advance (.receive contextLrrtt []) true, .advance .handleRTT true,
    .advance .finishRTT true, .start .teardown, .advance .teardown true, .start .watchdogStep,
    .advance .watchdogStep true]

def overtaken : List (Threads.Action Point Bool) :=
  [.start (.receive contextLrrtt []), .advance (.receive contextLrrtt []) true, .advance .handleRTT true,
    .start .teardown, .advance .teardown true, .advance .finishRTT true, .start .teardown, .advance .teardown true]

def runs (as : List (Threads.Action Point Bool)) : Option (LinkStatus × Nat) :=
  (run (system toyCrypto).step ⟨responder, []⟩ as).map fun c => (c.shared.status, c.shared.closures)

end Sample

theorem teardown_in_turn : StaysClosed Sample.toyCrypto ⟨Sample.responder, []⟩ Sample.inTurn := by
  obtain ⟨c, hrun⟩ : ∃ c, run (system Sample.toyCrypto).step ⟨Sample.responder, []⟩ Sample.inTurn = some c :=
    Option.isSome_iff_exists.mp (by decide +kernel)
  exact (staysClosed_iff_timely Sample.toyCrypto rfl (by decide) rfl _ hrun).mpr (by decide +kernel)

/-- The link becomes active after it was closed, and its callback is started a second time. -/
theorem overtaken_reopens :
    Sample.runs (Sample.overtaken.take 5) = some (.closed, 1) ∧ Sample.runs (Sample.overtaken.take 6) = some (.active, 1) ∧
      Sample.runs Sample.overtaken = some (.closed, 2) := by
  decide +kernel

/-! ### Proofs of the destination -/

variable {allow : Bool} {packet : ProofPacket}

structure Same (l l' : Link) : Prop where
  linkID : l'.linkID = l.linkID
  prv : l'.prv = l.prv
  mode : l'.mode = l.mode
  destinationKey : l'.destinationKey = l.destinationKey

theorem Same.refl (l : Link) : Same l l := ⟨rfl, rfl, rfl, rfl⟩

def agreedKeys (crypto : LinkCrypto) (l : Link) (data : Bytes) : Option (Bytes × Bytes) :=
  (crypto.exchange l.prv ((data.drop 64).take 32)).bind fun sharedKey =>
    (hkdf l.derivedKeyLength sharedKey l.linkID []).map fun derivedKey => (sharedKey, derivedKey)

def Agrees (crypto : LinkCrypto) (l : Link) (data : Bytes) : Prop :=
  64 + 32 ≤ data.length ∧ agreedKeys crypto l data ≠ none

section

variable (crypto : LinkCrypto)

def Rejects (allow : Bool) (l : Link) (packet : ProofPacket) : Prop :=
  (l.deliverLinkProof crypto allow packet).2 = false

def Genuine (allow : Bool) (l : Link) (packet : ProofPacket) : Prop :=
  (packet.hops = l.expectedHops ∨ allow = true) ∧ Agrees crypto l packet.data ∧
    l.verifyProofSignature crypto packet.data = true

end

section

variable (hpending : l.status = .pending)
include hpending

section

variable (hkey : l.destinationKey.length = 64)
include hkey

end

end

theorem agreedKeys_congr (h : Same l l') (data : Bytes) : agreedKeys crypto l' data = agreedKeys crypto l data := by
  rw [agreedKeys, agreedKeys, derivedKeyLength, derivedKeyLength, h.linkID, h.prv, h.mode]

theorem verifyProofSignature_congr (h : Same l l') (data : Bytes) :
    l'.verifyProofSignature crypto data = l.verifyProofSignature crypto data := by
  rw [verifyProofSignature, verifyProofSignature, h.linkID, h.destinationKey]

theorem Genuine.congr (h : Genuine crypto allow l packet) (hsame : Same l l')
    (hhops : allow = false → l'.expectedHops = l.expectedHops) : Genuine crypto allow l' packet := by
  obtain ⟨hallowed, ⟨hlen, hkeys⟩, hverify⟩ := h
  refine ⟨?_, ⟨hlen, by rwa [agreedKeys_congr hsame]⟩, by rwa [verifyProofSignature_congr hsame]⟩
  cases allow with
  | true => exact .inr rfl
  | false => exact hallowed.imp_left fun heq => heq.trans (hhops rfl).symm

namespace Sample

def initiator : Link where
  initiator := true
  status := .pending
  linkID := List.replicate 16 1
  prv := []
  destinationKey := List.replicate 64 2
  expectedHops := 1

end Sample

end Reticulum.Link
