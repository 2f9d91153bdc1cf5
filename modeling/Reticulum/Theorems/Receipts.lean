import Reticulum.Receipts

/-! # Which proofs resolve a receipt

A proof finds the receipts that are in the table when it comes in, and no others. -/

namespace Reticulum.ReceiptTable

open Transitions List Function

variable {verify : Bytes → Bytes → Bytes → Bool} {packets : Nat → Packet} {context : UInt8} {proof : Bytes}
  {t t' : ReceiptTable} {i j : Nat}

/-! ### Matching -/

/-- What the loop does with the receipts of the list. -/
structure Matched (verify : Bytes → Bytes → Bytes → Bool) (context : UInt8) (proof : Bytes) (l : List Nat)
    (t t' : ReceiptTable) : Prop where
  receipts : t'.receipts = t.receipts ++ l.filter fun i => matching verify context proof (t.receipt i) ≠ some true
  phase : t'.phase = t.phase
  hit : ∀ i ∈ l, matching verify context proof (t.receipt i) = some true → t'.receipt i = (t.receipt i).deliver ∧
    t'.delivered i = if (t.receipt i).deliveryCallback then t.delivered i + 1 else t.delivered i
  missed : ∀ i, ¬(i ∈ l ∧ matching verify context proof (t.receipt i) = some true) →
    t'.receipt i = t.receipt i ∧ t'.delivered i = t.delivered i

theorem update_self (t : ReceiptTable) (i : Nat) (f : OutstandingReceipt → OutstandingReceipt) :
    (t.update i f).receipt i = f (t.receipt i) := Function.update_self i _ _

theorem update_of_ne (t : ReceiptTable) (f : OutstandingReceipt → OutstandingReceipt) (h : j ≠ i) :
    (t.update i f).receipt j = t.receipt j := Function.update_of_ne h _ _

theorem matched_one {validated : Bool} (hmatch : matching verify context proof (t.receipt i) = some validated) :
    Matched verify context proof [i] t (t.settle i validated) := by
  cases validated with
  | false =>
    refine ⟨by simp [settle, hmatch], rfl, fun j hj htrue => ?_, fun _ _ => ⟨rfl, rfl⟩⟩
    obtain rfl := mem_singleton.mp hj
    cases hmatch.symm.trans htrue
  | true =>
    rw [settle, if_pos rfl]
    have hother : ∀ j, ¬(j ∈ [i] ∧ matching verify context proof (t.receipt j) = some true) → j ≠ i :=
      fun j hj h => hj ⟨mem_singleton.mpr h, h ▸ hmatch⟩
    dsimp only
    split_ifs with hcallback
    · refine ⟨by simp [update, hmatch], rfl, fun j hj _ => ?_, fun j hj => ?_⟩
      · obtain rfl := mem_singleton.mp hj
        rw [if_pos hcallback]
        exact ⟨update_self t j _, Function.update_self j _ _⟩
      · exact ⟨update_of_ne t _ (hother j hj), Function.update_of_ne (hother j hj) _ _⟩
    · refine ⟨by simp [update, hmatch], rfl, fun j hj _ => ?_, fun j hj => ?_⟩
      · obtain rfl := mem_singleton.mp hj
        rw [if_neg hcallback]
        exact ⟨update_self t j _, rfl⟩
      · exact ⟨update_of_ne t _ (hother j hj), rfl⟩

theorem matched_foldlM (l : List Nat) (hl : l.Nodup) {t t' : ReceiptTable}
    (h : l.foldlM (fun t i => (matching verify context proof (t.receipt i)).map (t.settle i)) t = some t') :
    Matched verify context proof l t t' := by
  induction l generalizing t with
  | nil =>
    cases h
    exact ⟨by simp, rfl, (fun _ h => nomatch h), fun _ _ => ⟨rfl, rfl⟩⟩
  | cons i l ih =>
    obtain ⟨hi, hl⟩ := nodup_cons.mp hl
    rw [foldlM_cons] at h
    obtain ⟨t₁, hstep, h⟩ := Option.bind_eq_some_iff.mp h
    obtain ⟨validated, hmatch, rfl⟩ := Option.map_eq_some_iff.mp hstep
    have hone := matched_one hmatch
    have hrest := ih hl h
    -- the other receipts of the loop are as they were
    have hsame : ∀ j ≠ i, (t.settle i validated).receipt j = t.receipt j ∧
        (t.settle i validated).delivered j = t.delivered j :=
      fun j hj => hone.missed j fun h => hj (mem_singleton.mp h.1)
    have hne : ∀ j ∈ l, j ≠ i := fun j hj h => hi (h ▸ hj)
    refine ⟨?_, hrest.phase.trans hone.phase, fun j hj htrue => ?_, fun j hj => ?_⟩
    · have hfilter : (l.filter fun j => matching verify context proof ((t.settle i validated).receipt j) ≠ some true) =
          l.filter fun j => matching verify context proof (t.receipt j) ≠ some true :=
        filter_congr fun j hj => by rw [(hsame j (hne j hj)).1]
      rw [hrest.receipts, hone.receipts, hfilter, append_assoc, ← filter_append]
      rfl
    · rcases mem_cons.mp hj with rfl | hj
      · obtain ⟨hreceipt, hcalls⟩ := hone.hit j (mem_singleton_self j) htrue
        obtain ⟨hr, hd⟩ := hrest.missed j fun h => hi h.1
        exact ⟨hr.trans hreceipt, hd.trans hcalls⟩
      · obtain ⟨hr, hd⟩ := hsame j (hne j hj)
        have hhit := hrest.hit j hj (by rw [hr]; exact htrue)
        rwa [hr, hd] at hhit
    · by_cases hji : j = i
      · subst hji
        have hno : ¬matching verify context proof (t.receipt j) = some true := fun h => hj ⟨mem_cons_self, h⟩
        obtain ⟨hr, hd⟩ := hone.missed j fun h => hno h.2
        obtain ⟨hr', hd'⟩ := hrest.missed j fun h => hi h.1
        exact ⟨hr'.trans hr, hd'.trans hd⟩
      · obtain ⟨hr, hd⟩ := hsame j hji
        obtain ⟨hr', hd'⟩ := hrest.missed j fun h =>
          hj ⟨mem_cons_of_mem i h.1, by rw [← hr]; exact h.2⟩
        exact ⟨hr'.trans hr, hd'.trans hd⟩

/-! ### The table -/

/-- What holds between the calls: a receipt in the table waits for its proof. -/
structure Valid (t : ReceiptTable) : Prop where
  nodup : t.receipts.Nodup
  waiting : ∀ i ∈ t.receipts, t.phase i = .done ∧ (t.receipt i).status ≠ .delivered
  fresh : ∀ i, t.phase i ≠ .done → (t.receipt i).status ≠ .delivered
  quiet : ∀ i, (t.receipt i).status ≠ .delivered → t.delivered i = 0

theorem matched_matchReceipts (h : t.Valid) (hmatch : t.matchReceipts verify context proof = some t') :
    Matched verify context proof t.receipts { t with receipts := [] } t' := matched_foldlM t.receipts h.nodup hmatch

structure Kept (t t' : ReceiptTable) : Prop where
  status : ∀ i, (t'.receipt i).status = .delivered ↔ (t.receipt i).status = .delivered
  delivered : t'.delivered = t.delivered

theorem kept_update {f : OutstandingReceipt → OutstandingReceipt}
    (hf : (f (t.receipt i)).status = .delivered ↔ (t.receipt i).status = .delivered) : Kept t (t.update i f) := by
  refine ⟨fun j => ?_, rfl⟩
  by_cases hj : j = i
  · subst hj
    rw [update_self]
    exact hf
  · rw [update_of_ne t f hj]

theorem status_checkTimeout (r : OutstandingReceipt) (now : Int) :
    (r.checkTimeout now).status = .delivered ↔ r.status = .delivered := by
  rw [OutstandingReceipt.checkTimeout]
  split_ifs with hwaits
  · rfl
  all_goals
    have hsent : r.status = .sent := not_not.mp (not_or.mp hwaits).1
    rw [hsent]
    simp

/-- What `Outbound` does once the packet has left. -/
structure Registered (i : Nat) (t t' : ReceiptTable) : Prop where
  receipts : t'.receipts = t.receipts ∨ t'.receipts = t.receipts ++ [i]
  phase : t'.phase = Function.update t.phase i .done
  status : (t'.receipt i).status = .sent
  others : ∀ j ≠ i, t'.receipt j = t.receipt j
  delivered : t'.delivered = t.delivered

theorem registered_register (packets : Nat → Packet) (t : ReceiptTable) (i : Nat) (now timeout : Int) :
    Registered i t (t.register packets i now timeout) := by
  rw [register]
  split_ifs
  · refine ⟨.inr rfl, rfl, ?_, fun j hj => Function.update_of_ne hj _ _, rfl⟩
    simp only [update, Function.update_self]
    rfl
  · refine ⟨.inl rfl, rfl, ?_, fun j hj => Function.update_of_ne hj _ _, rfl⟩
    simp only [update, Function.update_self]
    rfl

section

variable (h : t.Valid)
include h

theorem Registered.kept (hi : t.phase i ≠ .done) (hreg : Registered i t t') : Kept t t' := by
  refine ⟨fun j => ?_, hreg.delivered⟩
  by_cases hj : j = i
  · subst hj
    rw [hreg.status]
    exact iff_of_false (by decide) (h.fresh j hi)
  · rw [hreg.others j hj]

theorem Valid.of_kept (hkept : Kept t t') (hphase : t'.phase = t.phase)
    (hsub : t'.receipts.Sublist t.receipts) : t'.Valid where
  nodup := hsub.nodup h.nodup
  waiting i hi := by
    obtain ⟨hdone, hstatus⟩ := h.waiting i (hsub.subset hi)
    exact ⟨hphase ▸ hdone, fun hdelivered => hstatus ((hkept.status i).mp hdelivered)⟩
  fresh i hi hdelivered := h.fresh i (hphase ▸ hi) ((hkept.status i).mp hdelivered)
  quiet i hi := by
    rw [hkept.delivered]
    exact h.quiet i fun hdelivered => hi ((hkept.status i).mpr hdelivered)

theorem valid_transmit (hi : t.phase i ≠ .done) : (t.setPhase i .transmitted).Valid where
  nodup := h.nodup
  waiting j hj := by
    obtain ⟨hdone, hstatus⟩ := h.waiting j hj
    have hne : j ≠ i := fun heq => hi (heq ▸ hdone)
    exact ⟨(Function.update_of_ne hne _ _).trans hdone, hstatus⟩
  fresh j hj := by
    by_cases hji : j = i
    · exact h.fresh j (hji ▸ hi)
    · exact h.fresh j fun hdone => hj ((Function.update_of_ne hji _ _).trans hdone)
  quiet := h.quiet

theorem Registered.valid (hi : t.phase i ≠ .done) (hreg : Registered i t t') : t'.Valid := by
  have hkept := hreg.kept h hi
  have hout : i ∉ t.receipts := fun hmem => hi (h.waiting i hmem).1
  have hmem : ∀ j ∈ t'.receipts, j = i ∨ j ∈ t.receipts := by
    intro j hj
    rcases hreg.receipts with heq | heq <;> rw [heq] at hj
    · exact .inr hj
    · exact (mem_append.mp hj).symm.imp_left mem_singleton.mp
  have hphase : ∀ j ≠ i, t'.phase j = t.phase j := fun j hj => by rw [hreg.phase, Function.update_of_ne hj]
  refine ⟨?_, fun j hj => ?_, fun j hj => ?_, fun j hj => ?_⟩
  · rcases hreg.receipts with heq | heq <;> rw [heq]
    · exact h.nodup
    · exact nodup_append.mpr ⟨h.nodup, by simp, fun a ha b hb hab =>
        hout (mem_singleton.mp hb ▸ hab ▸ ha)⟩
  · by_cases hji : j = i
    · subst hji
      rw [hreg.phase, Function.update_self, hreg.status]
      exact ⟨rfl, by decide⟩
    · obtain ⟨hdone, hstatus⟩ := h.waiting j ((hmem j hj).resolve_left hji)
      rw [hphase j hji, hreg.others j hji]
      exact ⟨hdone, hstatus⟩
  · have hji : j ≠ i := fun hji => hj (by rw [hji, hreg.phase, Function.update_self])
    rw [hreg.others j hji]
    exact h.fresh j (hphase j hji ▸ hj)
  · rw [hkept.delivered]
    exact h.quiet j fun hdelivered => hj ((hkept.status j).mpr hdelivered)

theorem valid_matchReceipts (hmatch : t.matchReceipts verify context proof = some t') : t'.Valid := by
  have hm := matched_matchReceipts h hmatch
  refine ⟨?_, fun i hi => ?_, fun i hi => ?_, fun i hi => ?_⟩
  · rw [hm.receipts]
    exact h.nodup.filter _
  · rw [hm.receipts, nil_append, mem_filter] at hi
    obtain ⟨hdone, hstatus⟩ := h.waiting i hi.1
    rw [(hm.missed i fun hhit => by simp [hhit.2] at hi).1, hm.phase]
    exact ⟨hdone, hstatus⟩
  · rw [hm.phase] at hi
    rw [(hm.missed i fun hhit => hi (h.waiting i hhit.1).1).1]
    exact h.fresh i hi
  · by_cases hhit : i ∈ t.receipts ∧ matching verify context proof (t.receipt i) = some true
    · rw [(hm.hit i hhit.1 hhit.2).1] at hi
      exact absurd rfl hi
    · obtain ⟨hr, hd⟩ := hm.missed i hhit
      rw [hr] at hi
      rw [hd]
      exact h.quiet i hi

/-- Only a proof resolves receipts. -/
theorem valid_of_step {a : Action} (hstep : step verify packets t a = some t') :
    t'.Valid ∧ ((∀ context data, a ≠ .proof context data) → Kept t t') := by
  have hsub : Kept t t' → t'.phase = t.phase → t'.receipts.Sublist t.receipts →
      t'.Valid ∧ ((∀ context data, a ≠ .proof context data) → Kept t t') :=
    fun hkept hphase hsub => ⟨h.of_kept hkept hphase hsub, fun _ => hkept⟩
  cases a with
  | transmit i =>
    rw [step] at hstep
    split_ifs at hstep with hphase
    cases hstep
    exact ⟨valid_transmit h hphase, fun _ => ⟨fun _ => Iff.rfl, rfl⟩⟩
  | register i now timeout =>
    rw [step] at hstep
    split_ifs at hstep with hphase
    cases hstep
    have hreg := registered_register packets t i now timeout
    have hi : t.phase i ≠ .done := by rw [hphase]; decide
    exact ⟨hreg.valid h hi, fun _ => hreg.kept h hi⟩
  | proof context data =>
    exact ⟨valid_matchReceipts h hstep, fun hno => absurd rfl (hno context data)⟩
  | setDeliveryCallback i set | setTimeoutCallback i set =>
    cases hstep
    exact hsub (kept_update Iff.rfl) rfl (Sublist.refl _)
  | checkTimeout i now =>
    cases hstep
    exact hsub (kept_update (status_checkTimeout _ now)) rfl (Sublist.refl _)
  | evict =>
    rw [step] at hstep
    generalize t.receipts.length - maxReceipts = n at hstep
    cases hstep
    exact hsub ⟨fun _ => Iff.rfl, rfl⟩ rfl (drop_sublist n t.receipts)
  | cull i now =>
    rw [step] at hstep
    split_ifs at hstep
    cases hstep
    have hkept : Kept t (t.update i fun r => (r.setTimeout receiptTimeoutCulled).checkTimeout now) :=
      kept_update (status_checkTimeout _ now)
    exact hsub ⟨hkept.status, hkept.delivered⟩ rfl (Sublist.refl _)
  | sweep =>
    cases hstep
    exact hsub ⟨fun _ => Iff.rfl, rfl⟩ rfl filter_sublist

end

/-! ### Resolved receipts -/

def Resolved (called : Prop) (i : Nat) (t : ReceiptTable) : Prop :=
  (t.receipt i).status = .delivered ∧ (called → t.delivered i = 1)

section

variable (verify : Bytes → Bytes → Bytes → Bool)

def Proves (i : Nat) (t : ReceiptTable) : Action → Prop
  | .proof context data => matching verify context data (t.receipt i) = some true
  | _ => False

/-- A valid proof arrives after the packet was handed to an interface and before the receipt has expired. -/
def InTime (i : Nat) (t : ReceiptTable) (a : Action) : Prop :=
  Proves verify i t a ∧ t.phase i ≠ .packed ∧ (t.receipt i).status = .sent

/-- A valid proof arrives while the receipt is in the table, with its callback set if that is asked for. -/
def Met (called : Prop) (i : Nat) (t : ReceiptTable) (a : Action) : Prop :=
  Proves verify i t a ∧ i ∈ t.receipts ∧ (called → (t.receipt i).deliveryCallback = true)

end

/-- A step resolves a receipt just when a proof meets it in the table. -/
theorem resolved_of_step {a : Action} (called : Prop) (i : Nat) (h : t.Valid)
    (hstep : step verify packets t a = some t') :
    Resolved called i t' ↔ Resolved called i t ∨ Met verify called i t a := by
  by_cases hproof : ∃ context data, a = .proof context data
  · obtain ⟨context, data, rfl⟩ := hproof
    have hm := matched_matchReceipts h hstep
    by_cases hhit : i ∈ t.receipts ∧ matching verify context data (t.receipt i) = some true
    · -- the receipt waited, so that its callback has not been called before
      obtain ⟨hreceipt, hcalls⟩ := hm.hit i hhit.1 hhit.2
      have hwaiting := (h.waiting i hhit.1).2
      rw [h.quiet i hwaiting] at hcalls
      rw [Resolved, hreceipt, hcalls]
      constructor
      · rintro ⟨-, hcalled⟩
        refine .inr ⟨hhit.2, hhit.1, fun hc => ?_⟩
        by_contra hcallback
        have hzero := hcalled hc
        rw [if_neg hcallback] at hzero
        cases hzero
      · rintro (hbefore | ⟨-, -, hcallback⟩)
        · exact absurd hbefore.1 hwaiting
        · exact ⟨rfl, fun hc => if_pos (hcallback hc)⟩
    · obtain ⟨hr, hd⟩ := hm.missed i hhit
      rw [Resolved, hr, hd]
      exact ⟨.inl, fun hor => hor.elim id fun hmet => absurd ⟨hmet.2.1, hmet.1⟩ hhit⟩
  · have hkept := (valid_of_step h hstep).2 fun context data heq => hproof ⟨context, data, heq⟩
    rw [Resolved, hkept.status i, hkept.delivered]
    refine ⟨.inl, fun hor => hor.elim id fun hmet => ?_⟩
    cases a with
    | proof context data => exact absurd ⟨context, data, rfl⟩ hproof
    | _ => exact hmet.1.elim

def start (receipt : Nat → OutstandingReceipt) : ReceiptTable := { receipt }

/-- Receipts with a valid proof in time are resolved just when one found each in the table with its callback. -/
theorem resolved_iff_met (verify : Bytes → Bytes → Bytes → Bool) (packets : Nat → Packet)
    (receipt : Nat → OutstandingReceipt) (hsent : ∀ i, (receipt i).status = .sent) (as : List Action)
    (t : ReceiptTable) (hrun : run (step verify packets) (start receipt) as = some t) :
    (∀ i, Happens (step verify packets) (InTime verify i) (start receipt) as →
      Resolved ((t.receipt i).deliveryCallback = true) i t) ↔
    ∀ i, Happens (step verify packets) (InTime verify i) (start receipt) as →
      Happens (step verify packets) (Met verify ((t.receipt i).deliveryCallback = true) i) (start receipt) as := by
  have hne : ∀ i, ((start receipt).receipt i).status ≠ .delivered := fun i hdelivered => by
    rw [show ((start receipt).receipt i).status = .sent from hsent i] at hdelivered
    cases hdelivered
  have hvalid : (start receipt).Valid :=
    ⟨List.nodup_nil, (fun _ hi => nomatch hi), fun i _ => hne i, fun _ _ => rfl⟩
  refine forall_congr' fun i => imp_congr_right fun _ => ?_
  rw [run_iff_happens Valid (Resolved ((t.receipt i).deliveryCallback = true) i)
    (fun t a t' h hstep => (valid_of_step h hstep).1) (fun t a t' h hstep => resolved_of_step _ i h hstep) as hvalid hrun]
  exact or_iff_right fun hresolved => hne i hresolved.1

namespace Sample

/-- Signatures that only the key `[1]` makes. -/
def verifySample (key signature _ : Bytes) : Bool := key = [1] && signature = List.replicate 64 7

def packet : Packet := Packet.unpackAt (0 :: 0 :: (List.replicate 16 5 ++ [0, 42])) 2 none

def receipt : OutstandingReceipt :=
  { hash := [], truncatedHash := [], key := .destination (some [1]), deliveryCallback := true }

def validProof : Action := .proof 0 (List.replicate 64 7)

def outcome (as : List Action) : Option (ReceiptStatus × Nat) :=
  (run (step verifySample fun _ => packet) (start fun _ => receipt) as).map fun t => ((t.receipt 0).status, t.delivered 0)

theorem inTime_of_late {i : Nat} (h : Happens (step verifySample fun _ => packet) (InTime verifySample i)
    (start fun _ => receipt) [.transmit 0, .register 0 10 6, validProof]) : i = 0 := by
  rcases h with h | ⟨t₁, h₁, h | ⟨t₂, h₂, h | ⟨_, _, h⟩⟩⟩
  · exact h.1.elim
  · exact h.1.elim
  · by_contra hi
    cases h₁
    cases h₂
    refine h.2.1 ?_
    rw [(registered_register _ _ _ _ _).phase, Function.update_of_ne hi]
    exact Function.update_of_ne hi _ _
  · exact h.elim

end Sample

theorem late_proof_resolves : ∃ t, run (step Sample.verifySample fun _ => Sample.packet) (start fun _ => Sample.receipt)
      [.transmit 0, .register 0 10 6, Sample.validProof] = some t ∧ ∀ i,
    Happens (step Sample.verifySample fun _ => Sample.packet) (InTime Sample.verifySample i)
      (start fun _ => Sample.receipt) [.transmit 0, .register 0 10 6, Sample.validProof] →
    Resolved ((t.receipt i).deliveryCallback = true) i t := by
  obtain ⟨t, hrun⟩ : ∃ t, run (step Sample.verifySample fun _ => Sample.packet) (start fun _ => Sample.receipt)
    [.transmit 0, .register 0 10 6, Sample.validProof] = some t := ⟨_, rfl⟩
  refine ⟨t, hrun, (resolved_iff_met Sample.verifySample (fun _ => Sample.packet) (fun _ => Sample.receipt)
    (fun _ => rfl) _ t hrun).mpr fun i hintime => ?_⟩
  obtain rfl := Sample.inTime_of_late hintime
  refine Or.inr ⟨_, rfl, Or.inr ⟨_, rfl, Or.inl ⟨?_, by decide +kernel, fun _ => by decide +kernel⟩⟩⟩
  show matching Sample.verifySample _ _ _ = some true
  decide +kernel

/-- A proof that overtakes the registration is lost: the receipt waits for it until it expires. -/
theorem early_proof_lost : Sample.outcome [.transmit 0, .register 0 10 6, Sample.validProof] = some (.delivered, 1) ∧
      Sample.outcome [.transmit 0, Sample.validProof, .register 0 10 6] = some (.sent, 0) ∧
      Sample.outcome [.transmit 0, Sample.validProof, .register 0 10 6, .checkTimeout 0 17, .sweep] = some (.failed, 0) := by
  decide +kernel

end Reticulum.ReceiptTable

/-! # What becomes of a proved receipt -/

namespace Reticulum.SharedReceipt

open Transitions

/-- A proved receipt is delivered, called back at most once, and not timed out after the delivery. -/
structure Settled (r : SharedReceipt) : Prop where
  delivered : r.proved = true → r.status = .delivered
  once : r.deliveries ≤ 1
  late : r.late = 0

/-- Nothing marks a proved receipt, proves it again if it calls back, or calls its timeout callback. -/
def Orderly (verify : Bytes → Bytes → Bytes → Bool) (r : SharedReceipt) : Action → Prop
  | .markSent _ | .triggerTimeout | .timeoutCallback => r.proved = false
  | .validateProof proof => r.validates verify proof = some true → r.deliveryCallback = true → r.proved = false
  | .triggerDelivery => r.deliveryCallback = true → r.proved = false
  | .checkTimeout _ | .setTimeout _ => True

variable {verify : Bytes → Bytes → Bytes → Bool} {r r' : SharedReceipt} {a : Action}

/-- Delivery is called once for a proof, and no timeout after it. -/
structure Sound (r : SharedReceipt) : Prop where
  delivered : r.proved = true → r.status = .delivered
  called : r.deliveries = if r.proved && r.deliveryCallback then 1 else 0
  late : r.late = 0

section

variable (h : Sound r)
include h

theorem Sound.settled : Settled r := by
  refine ⟨h.delivered, ?_, h.late⟩
  rw [h.called]
  split <;> simp

theorem Sound.conclude (hfirst : r.deliveryCallback = true → r.proved = false) : Sound r.conclude := by
  refine ⟨fun _ => rfl, ?_, h.late⟩
  have hcalled := h.called
  cases hcallback : r.deliveryCallback with
  | false => simpa [SharedReceipt.conclude, OutstandingReceipt.deliver, hcallback] using hcalled
  | true => simpa [SharedReceipt.conclude, OutstandingReceipt.deliver, hcallback, hfirst hcallback] using hcalled

theorem first_of_conclude (hsettled : Settled r.conclude) (hcallback : r.deliveryCallback = true) :
    r.proved = false := by
  have honce := hsettled.once
  simp only [conclude, hcallback, h.called] at honce
  cases hproved : r.proved with
  | false => rfl
  | true => simp [hproved] at honce

theorem Sound.unproved (hproved : r.proved = false) (hkept : r'.proved = r.proved)
    (hdeliveries : r'.deliveries = r.deliveries) (hlate : r'.late = r.late) : Sound r' :=
  ⟨by simp [hkept, hproved], by simp [hdeliveries, h.called, hkept, hproved], hlate.trans h.late⟩

/-- The step lemma of a receipt: an orderly call keeps it sound. -/
theorem sound_step (hstep : step verify r a = some r') (horderly : Orderly verify r a) : Sound r' := by
  cases a with
  | markSent | triggerTimeout =>
    cases hstep
    exact h.unproved horderly rfl rfl rfl
  | validateProof proof =>
    obtain ⟨validated, hvalidated, rfl⟩ := Option.map_eq_some_iff.mp hstep
    cases validated with
    | true => exact h.conclude (horderly hvalidated)
    | false => exact h
  | triggerDelivery =>
    cases hstep
    exact h.conclude horderly
  | checkTimeout now =>
    cases hstep
    split
    · exact h
    -- only a receipt that is still sent expires, and a proved one is delivered
    · rename_i hdue
      refine h.unproved ?_ rfl rfl rfl
      by_contra hproved
      simp [h.delivered (by simpa using hproved)] at hdue
  | setTimeout =>
    cases hstep
    exact ⟨h.delivered, h.called, h.late⟩
  | timeoutCallback =>
    obtain ⟨-, hstep⟩ := Option.ite_none_left_eq_some.mp hstep
    cases hstep
    exact h.unproved horderly rfl rfl (by simp [show r.proved = false from horderly])

theorem orderly_of_settled (hstep : step verify r a = some r') (hsettled : Settled r') : Orderly verify r a := by
  have hstatus : r'.proved = r.proved → r'.status ≠ .delivered → r.proved = false := fun hkept hne =>
    Bool.eq_false_iff.mpr fun hproved => hne (hsettled.delivered (hkept.trans hproved))
  cases a with
  | markSent | triggerTimeout =>
    cases hstep
    exact hstatus rfl nofun
  | validateProof proof =>
    intro hvalid
    obtain ⟨validated, hvalidated, rfl⟩ := Option.map_eq_some_iff.mp hstep
    obtain rfl := Option.some.inj (hvalidated.symm.trans hvalid)
    exact first_of_conclude h hsettled
  | triggerDelivery =>
    cases hstep
    exact first_of_conclude h hsettled
  | checkTimeout | setTimeout => trivial
  | timeoutCallback =>
    obtain ⟨-, hstep⟩ := Option.ite_none_left_eq_some.mp hstep
    cases hstep
    have hlate := hsettled.late
    cases hproved : r.proved with
    | false => exact hproved
    | true => simp [hproved] at hlate

end

/-- A receipt is settled at every moment of a run just when every call of the run is orderly. -/
theorem settled_iff_orderly (verify : Bytes → Bytes → Bytes → Bool) (receipt : OutstandingReceipt)
    (hnew : receipt.proved = false) {as : List Action}
    (hrun : run (step verify) { toOutstandingReceipt := receipt } as = some r') :
    (∀ bs cs r₁, as = bs ++ cs → run (step verify) { toOutstandingReceipt := receipt } bs = some r₁ → Settled r₁) ↔
      Keeps (step verify) (Orderly verify) { toOutstandingReceipt := receipt } as :=
  keeps_iff_good Sound (fun _ h => h.settled) (fun _ _ _ => sound_step) (fun _ _ _ => orderly_of_settled)
    ⟨by simp [hnew], by simp [hnew], rfl⟩ hrun

open ReceiptTable.Sample (verifySample)

def sampleReceipt : SharedReceipt :=
  { toOutstandingReceipt := { ReceiptTable.Sample.receipt with timeoutCallback := true } }

def sampleProof : Action := .validateProof (List.replicate 64 7)

theorem proved_receipt_settled : ∃ r,
    run (step verifySample) sampleReceipt [.markSent 0, sampleProof, .checkTimeout 100] = some r ∧ r.proved = true ∧
      Settled r := by
  obtain ⟨r, hrun, hproved⟩ : ∃ r, run (step verifySample) sampleReceipt
    [.markSent 0, sampleProof, .checkTimeout 100] = some r ∧ r.proved = true := ⟨_, rfl, by decide +kernel⟩
  refine ⟨r, hrun, hproved, (settled_iff_orderly verifySample sampleReceipt.toOutstandingReceipt rfl hrun).mpr ?_ _ [] r
    (List.append_nil _).symm hrun⟩
  refine ⟨rfl, ?_⟩
  rintro _ ⟨⟩
  refine ⟨fun _ _ => rfl, ?_⟩
  rintro _ ⟨⟩
  exact ⟨trivial, fun _ _ => trivial⟩

/-- Marked as sent or timed out after the proof, proved twice, or its timeout callback called late. -/
theorem proved_receipt_unsettled :
    ((run (step verifySample) sampleReceipt [sampleProof, .markSent 0]).map fun r => (r.proved, r.status)) =
      some (true, .sent) ∧
    ((run (step verifySample) sampleReceipt [sampleProof, .triggerTimeout]).map fun r => (r.proved, r.status)) =
      some (true, .failed) ∧
    (run (step verifySample) sampleReceipt [sampleProof, .triggerDelivery]).map (·.deliveries) = some 2 ∧
    (run (step verifySample) sampleReceipt [.checkTimeout 1, sampleProof, .timeoutCallback]).map (·.late) = some 1 := by
  decide +kernel

end Reticulum.SharedReceipt
