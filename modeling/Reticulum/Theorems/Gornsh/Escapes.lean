import Mathlib.Data.List.Infix
import Reticulum.Gornsh.Streams

/-! # Escapes in the input of a terminal -/

namespace Reticulum.Gornsh

open List

def TTYInputAction.or (a b : TTYInputAction) : TTYInputAction :=
  { stop := a.stop || b.stop, help := a.help || b.help, toggleLine := a.toggleLine || b.toggleLine }

def processChunk (chunk : Bytes) (state : TTYInputState) : Bytes × TTYInputState × TTYInputAction :=
  processInitiatorTTYInputChunk chunk state [] {}

/-- The chunks one after another, up to the first stop. -/
def processChunks : List Bytes → TTYInputState → Bytes × TTYInputState × TTYInputAction
  | [], state => ([], state, {})
  | chunk :: chunks, state =>
    let r := processChunk chunk state
    if r.2.2.stop then r
    else
      let rest := processChunks chunks r.2.1
      (r.1 ++ rest.1, rest.2.1, r.2.2.or rest.2.2)

def newline (b : UInt8) : Bool := b = 0x0a ∨ b = 0x0d

/-- The rule for escapes, after a newline that was sent or another byte. A tilde after a newline waits for the next byte. -/
def recognise : Bool → Bytes → Bytes × TTYInputAction
  | true, 0x7e :: c :: data =>
    if c = 0x7e then (c :: (recognise false data).1, (recognise false data).2)
    else if c = 0x2e then ([], { stop := true })
    else if c = 0x4c then ((recognise false data).1, { (recognise false data).2 with toggleLine := true })
    else if c = 0x3f then ((recognise false data).1, { (recognise false data).2 with help := true })
    else (0x7e :: c :: (recognise (newline c) data).1, (recognise (newline c) data).2)
  | true, [0x7e] => ([], {})
  | _, b :: data => (b :: (recognise (newline b) data).1, (recognise (newline b) data).2)
  | _, [] => ([], {})

variable {pre after lineMode : Bool} {b c : UInt8} {before data : Bytes}

theorem processInitiatorTTYInputChunk_eq (data : Bytes) (state : TTYInputState) (output : Bytes) (action : TTYInputAction) :
    processInitiatorTTYInputChunk data state output action =
      (output ++ (processChunk data state).1, (processChunk data state).2.1, action.or (processChunk data state).2.2) := by
  induction data generalizing state output action with
  | nil => simp [processInitiatorTTYInputChunk, processChunk, TTYInputAction.or]
  | cons b data ih =>
    rw [processChunk]
    simp only [processInitiatorTTYInputChunk, ih]
    split_ifs <;> simp [TTYInputAction.or]

theorem processInitiatorTTYInputChunk_append (c d : Bytes) {state : TTYInputState} {output : Bytes}
    {action : TTYInputAction} (hgo : action.stop = false) : processInitiatorTTYInputChunk (c ++ d) state output action =
      let r := processInitiatorTTYInputChunk c state output action
      if r.2.2.stop then r else processInitiatorTTYInputChunk d r.2.1 r.1 r.2.2 := by
  induction c generalizing state output action with
  | nil => simp [processInitiatorTTYInputChunk, hgo]
  | cons b c ih =>
    simp only [cons_append, processInitiatorTTYInputChunk]
    split_ifs <;> simp_all

theorem processChunks_flatten (chunks : List Bytes) (state : TTYInputState) :
    processChunks chunks state = processChunk chunks.flatten state := by
  induction chunks generalizing state with
  | nil => rfl
  | cons c chunks ih =>
    rw [flatten_cons, processChunk, processInitiatorTTYInputChunk_append _ _ rfl, processChunks, ← processChunk]
    dsimp only
    split_ifs
    · rfl
    · rw [ih]
      exact (processInitiatorTTYInputChunk_eq ..).symm

/-- Whether the newline at the end of these bytes, last first, ends an unrecognised escape. -/
def ended : Bytes → Bool
  | c :: 0x7e :: x :: before => newline c && newline x && !ended (x :: before)
  | _ => false

/-- The first of these bytes is the tilde of an escape, or of one that is not finished. -/
def escape : Bytes → Bool
  | [0x7e] => true
  | 0x7e :: c :: _ => c = 0x7e ∨ c = 0x2e ∨ c = 0x4c ∨ c = 0x3f
  | _ => false

/-- No escape stands after a newline that ends an unrecognised one, unless a stop comes before it. -/
def Clear (data : Bytes) : Prop :=
  ∀ sent rest, data = sent ++ rest → ended sent.reverse = true → escape rest = true →
    ∃ x, newline x = true ∧ [x, 0x7e, 0x2e] <:+: sent

/-- Whether the last byte was a newline. -/
def atStart (before : Bytes) : Bool := before.head?.any newline

/-- A stop in these bytes, which come after others. -/
def Stops (before data : Bytes) : Prop :=
  ∃ sent rest, data = sent ++ 0x7e :: 0x2e :: rest ∧ atStart (sent.reverse ++ before) = true

def ClearAfter (before data : Bytes) : Prop :=
  ∀ sent rest, data = sent ++ rest → ended (sent.reverse ++ before) = true → escape rest = true → Stops before sent

theorem stops_nil (data : Bytes) : Stops [] data ↔ ∃ x, newline x = true ∧ [x, 0x7e, 0x2e] <:+: data := by
  constructor
  · rintro ⟨sent, rest, rfl, hstart⟩
    cases sent using reverseRecOn with
    | nil => cases hstart
    | append_singleton sent x => exact ⟨x, by simpa [atStart] using hstart, sent, rest, by simp⟩
  · rintro ⟨x, hx, sent, rest, rfl⟩
    exact ⟨sent ++ [x], rest, by simp, by simpa [atStart] using hx⟩

theorem clearAfter_nil (data : Bytes) : ClearAfter [] data ↔ Clear data := by
  simp only [ClearAfter, Clear, stops_nil, append_nil]

theorem atStart_of_ended (h : ended before = true) : atStart before = true := by
  unfold ended at h
  split at h
  · simp_all [atStart]
  · cases h

/-- A byte that is not the tilde of an escape moves over to the bytes before. -/
theorem clearAfter_cons (h : ¬(atStart before = true ∧ b = 0x7e)) :
    ClearAfter before (b :: data) ↔ ClearAfter (b :: before) data := by
  have hstops : ∀ sent, Stops before (b :: sent) ↔ Stops (b :: before) sent := by
    intro sent
    constructor
    · rintro ⟨a, rest, heq, hstart⟩
      cases a with
      | nil => exact absurd ⟨by simpa using hstart, (cons.inj heq).1⟩ h
      | cons x a =>
        obtain ⟨rfl, rfl⟩ := cons.inj heq
        exact ⟨a, rest, rfl, by simpa using hstart⟩
    · rintro ⟨a, rest, rfl, hstart⟩
      exact ⟨b :: a, rest, rfl, by simpa using hstart⟩
  constructor
  · intro hclear sent rest heq hended hescape
    exact (hstops sent).mp (hclear (b :: sent) rest (by rw [heq, cons_append]) (by simpa using hended) hescape)
  · intro hclear sent rest heq hended hescape
    cases sent with
    | nil =>
      subst heq
      have hb : b = 0x7e := by
        unfold escape at hescape
        split at hescape <;> simp_all
      exact absurd ⟨atStart_of_ended (by simpa using hended), hb⟩ h
    | cons x sent =>
      obtain ⟨rfl, rfl⟩ := cons.inj heq
      exact (hstops sent).mpr (hclear sent rest rfl (by simpa using hended) hescape)

/-- So does an escape, unless it stops or is missed. -/
theorem clearAfter_escape (hdot : c ≠ 0x2e)
    (h : ended before = true → escape (0x7e :: c :: data) = false) :
    ClearAfter before (0x7e :: c :: data) ↔ ClearAfter (c :: 0x7e :: before) data := by
  have hstops : ∀ sent, Stops before (0x7e :: c :: sent) ↔ Stops (c :: 0x7e :: before) sent := by
    intro sent
    constructor
    · rintro ⟨a, rest, heq, hstart⟩
      match a with
      | [] => exact absurd (cons.inj (cons.inj heq).2).1 hdot
      | [x] =>
        obtain ⟨rfl, -⟩ := cons.inj heq
        exact absurd hstart (by decide : ¬newline 0x7e = true)
      | x :: y :: a =>
        obtain ⟨rfl, htail⟩ := cons.inj heq
        obtain ⟨rfl, rfl⟩ := cons.inj htail
        exact ⟨a, rest, rfl, by simpa using hstart⟩
    · rintro ⟨a, rest, rfl, hstart⟩
      exact ⟨0x7e :: c :: a, rest, rfl, by simpa using hstart⟩
  constructor
  · intro hclear sent rest heq hended hescape
    exact (hstops sent).mp (hclear (0x7e :: c :: sent) rest (by rw [heq]; rfl) (by simpa using hended) hescape)
  · intro hclear sent rest heq hended hescape
    match sent with
    | [] =>
      subst heq
      rw [h (by simpa using hended)] at hescape
      cases hescape
    | [x] =>
      obtain ⟨rfl, rfl⟩ := cons.inj heq
      exact absurd (atStart_of_ended hended) (by decide : ¬newline 0x7e = true)
    | x :: y :: sent =>
      obtain ⟨rfl, htail⟩ := cons.inj heq
      obtain ⟨rfl, rfl⟩ := cons.inj htail
      exact (hstops sent).mpr (hclear sent rest rfl (by simpa using hended) hescape)

theorem processChunk_escape : processChunk (0x7e :: c :: data) { preEscape := true, lineMode } =
    if c = 0x7e then processInitiatorTTYInputChunk data { lineMode } [c] {}
    else if c = 0x2e then ([], { lineMode }, { stop := true })
    else if c = 0x4c then processInitiatorTTYInputChunk data { lineMode := !lineMode } [] { toggleLine := true }
    else if c = 0x3f then processInitiatorTTYInputChunk data { lineMode } [] { help := true }
    else processInitiatorTTYInputChunk data { lineMode } [0x7e, c] {} := by
  simp [processChunk, processInitiatorTTYInputChunk]

theorem processChunk_plain (h : ¬(pre = true ∧ b = 0x7e)) : processChunk (b :: data) { preEscape := pre, lineMode } =
    processInitiatorTTYInputChunk data { preEscape := newline b, lineMode } [b] {} := by
  by_cases hb : b = 0x0a ∨ b = 0x0d <;> simp [processChunk, processInitiatorTTYInputChunk, newline, h, hb]

/-- What the function gives beside what the rule gives: the same on a clear input, and more bytes on any other. -/
def Compares (clear : Prop) (code : Bytes × TTYInputState × TTYInputAction) (rule : Bytes × TTYInputAction) : Prop :=
  clear ∧ code.1 = rule.1 ∧ code.2.2 = rule.2 ∨ ¬clear ∧ rule.1.length < code.1.length

theorem Compares.length_le {clear : Prop} {code : Bytes × TTYInputState × TTYInputAction}
    {rule : Bytes × TTYInputAction} (h : Compares clear code rule) : rule.1.length ≤ code.1.length := by
  rcases h with ⟨-, heq, -⟩ | ⟨-, hlt⟩
  · rw [heq]
  · exact hlt.le

/-- Both go on after the same bytes and actions. -/
theorem Compares.of_tail {clear clear' : Prop} {code code' : Bytes × TTYInputState × TTYInputAction}
    {rule rule' : Bytes × TTYInputAction} (h : Compares clear code rule) (hclear : clear' ↔ clear) (sent : Bytes)
    (action : TTYInputAction) (hcode : code' = (sent ++ code.1, code.2.1, action.or code.2.2))
    (hrule : rule' = (sent ++ rule.1, action.or rule.2)) : Compares clear' code' rule' := by
  subst hcode hrule
  rcases h with ⟨hc, heq, haction⟩ | ⟨hc, hlt⟩
  · exact .inl ⟨hclear.mpr hc, by rw [heq], by rw [haction]⟩
  · exact .inr ⟨fun hc' => hc (hclear.mp hc'), by simpa using hlt⟩

/-- The flag of the code after these bytes: a newline that ends an unrecognised escape does not set it. -/
def flagAfter (before : Bytes) : Bool := atStart before && !ended before

/-- The bytes do not end in the middle of an escape. -/
def Whole (before : Bytes) : Prop := ∀ rest, before = 0x7e :: rest → atStart rest = false

theorem Whole.cons (h : ¬(atStart before = true ∧ b = 0x7e)) : Whole (b :: before) := by
  rintro rest heq
  obtain ⟨rfl, rfl⟩ := cons.inj heq
  exact Bool.eq_false_iff.mpr fun hstart => h ⟨hstart, rfl⟩

theorem Whole.escape (before : Bytes) : Whole (c :: 0x7e :: before) := by
  rintro rest heq
  obtain ⟨-, rfl⟩ := cons.inj heq
  rfl

theorem Whole.flagAfter_cons (h : Whole before) : flagAfter (b :: before) = newline b := by
  have hended : ended (b :: before) = false := by
    unfold ended
    split
    · rename_i x _ heq
      obtain ⟨-, rfl⟩ := cons.inj heq
      have hx : newline x = false := h _ rfl
      simp [hx]
    · rfl
  simp [flagAfter, hended, atStart]

theorem flagAfter_escape (h : atStart before = true) :
    flagAfter (c :: 0x7e :: before) = (newline c && ended before) := by
  cases before with
  | nil => cases h
  | cons x before =>
    have hx : newline x = true := h
    cases hc : newline c <;> simp [flagAfter, ended, atStart, hx, hc]

theorem two_sent {before sent rest : Bytes} (hended : ended before = false) (heq : 0x7e :: data = sent ++ rest)
    (h : ended (sent.reverse ++ before) = true) : ∃ y sent', sent = 0x7e :: y :: sent' := by
  match sent with
  | [] =>
    rw [reverse_nil, nil_append, hended] at h
    cases h
  | [x] =>
    obtain ⟨rfl, -⟩ := cons.inj heq
    exact absurd (atStart_of_ended h) (by decide : ¬newline 0x7e = true)
  | x :: y :: sent' =>
    obtain ⟨rfl, -⟩ := cons.inj heq
    exact ⟨y, sent', rfl⟩

/-- An escape after a newline that does not set the flag is sent. -/
theorem compares_missed {rule : Bytes × TTYInputAction} (hended : ended before = true)
    (hescape : escape (0x7e :: c :: data) = true)
    (hlen : rule.1.length ≤ (processChunk data { preEscape := flagAfter (c :: 0x7e :: before), lineMode }).1.length + 1) :
    Compares (ClearAfter before (0x7e :: c :: data))
      (processChunk (0x7e :: c :: data) { preEscape := flagAfter before, lineMode }) rule := by
  have hflag : flagAfter before = false := by simp [flagAfter, hended]
  rw [flagAfter_escape (atStart_of_ended hended), hended, Bool.and_true] at hlen
  refine .inr ⟨fun hclear => ?_, ?_⟩
  · obtain ⟨a, rest, heq, -⟩ := hclear [] _ rfl hended hescape
    simp at heq
  · rw [hflag, processChunk_plain (by decide), processInitiatorTTYInputChunk_eq, processChunk_plain (by simp [newline]),
      processInitiatorTTYInputChunk_eq]
    simp only [length_append, length_cons, length_nil]
    omega

/-- The function beside the rule, after the same bytes. -/
theorem processChunk_recognise (before data : Bytes) (after lineMode : Bool) (hafter : after = atStart before)
    (hwhole : Whole before) :
    Compares (ClearAfter before data) (processChunk data { preEscape := flagAfter before, lineMode })
      (recognise after data) := by
  fun_induction recognise after data generalizing before lineMode with
  | case1 data ih =>
    have hrest := ih (0x7e :: 0x7e :: before) lineMode rfl (.escape before)
    cases hended : ended before with
    | true => exact compares_missed hended rfl (by simpa using hrest.length_le)
    | false =>
      refine hrest.of_tail (clearAfter_escape (by decide) (by simp [hended])) [0x7e] {} ?_ (by simp [TTYInputAction.or])
      rw [flagAfter, ← hafter, hended, flagAfter_escape hafter.symm, hended]
      simp [processChunk_escape, processInitiatorTTYInputChunk_eq data]
  | case2 data =>
    cases hended : ended before with
    | true => exact compares_missed hended rfl (by simp)
    | false =>
      refine .inl ⟨fun sent rest heq hended' hescape => ?_, ?_⟩
      · obtain ⟨y, sent, rfl⟩ := two_sent hended heq hended'
        obtain ⟨rfl, -⟩ := cons.inj (cons.inj heq).2
        exact ⟨[], sent, rfl, hafter.symm⟩
      · rw [flagAfter, ← hafter, hended]
        simp [processChunk_escape]
  | case3 data _ _ ih =>
    have hrest := fun lineMode => ih (0x4c :: 0x7e :: before) lineMode rfl (.escape before)
    cases hended : ended before with
    | true => exact compares_missed hended rfl ((hrest lineMode).length_le.trans (Nat.le_succ _))
    | false =>
      refine (hrest (!lineMode)).of_tail (clearAfter_escape (by decide) (by simp [hended])) [] { toggleLine := true } ?_
        (by simp [TTYInputAction.or])
      rw [flagAfter, ← hafter, hended, flagAfter_escape hafter.symm, hended]
      simp [processChunk_escape, processInitiatorTTYInputChunk_eq data]
  | case4 data _ _ _ ih =>
    have hrest := ih (0x3f :: 0x7e :: before) lineMode rfl (.escape before)
    cases hended : ended before with
    | true => exact compares_missed hended rfl (hrest.length_le.trans (Nat.le_succ _))
    | false =>
      refine hrest.of_tail (clearAfter_escape (by decide) (by simp [hended])) [] { help := true } ?_
        (by simp [TTYInputAction.or])
      rw [flagAfter, ← hafter, hended, flagAfter_escape hafter.symm, hended]
      simp [processChunk_escape, processInitiatorTTYInputChunk_eq data]
  | case5 c data h₁ h₂ h₃ h₄ ih =>
    have hrest := ih (c :: 0x7e :: before) lineMode rfl (.escape before)
    refine hrest.of_tail (clearAfter_escape h₂ (by simp [escape, h₁, h₂, h₃, h₄])) [0x7e, c] {} ?_
      (by simp [TTYInputAction.or])
    rw [flagAfter_escape hafter.symm, flagAfter, ← hafter]
    cases hended : ended before with
    | true =>
      rw [Bool.and_true, Bool.not_true, Bool.and_false, processChunk_plain (by decide), processInitiatorTTYInputChunk_eq,
        processChunk_plain (by simp [newline]), processInitiatorTTYInputChunk_eq]
      simp [TTYInputAction.or]
    | false => simp [processChunk_escape, processInitiatorTTYInputChunk_eq data, h₁, h₂, h₃, h₄]
  | case6 =>
    cases hended : ended before with
    | true =>
      refine .inr ⟨fun hclear => ?_, ?_⟩
      · obtain ⟨a, rest, heq, -⟩ := hclear [] _ rfl hended rfl
        simp at heq
      · simp [flagAfter, hended, processChunk, processInitiatorTTYInputChunk]
    | false =>
      refine .inl ⟨fun sent rest heq hended' hescape => ?_, ?_⟩
      · obtain ⟨y, sent, rfl⟩ := two_sent hended heq hended'
        cases (cons.inj heq).2
      · rw [flagAfter, ← hafter, hended]
        simp [processChunk, processInitiatorTTYInputChunk]
  | case7 after b data hlong hshort ih =>
    have hplain : ¬(atStart before = true ∧ b = 0x7e) := by
      rintro ⟨hstart, rfl⟩
      cases data with
      | nil => exact hshort (hafter.trans hstart) rfl rfl
      | cons c data => exact hlong c data (hafter.trans hstart) rfl rfl
    refine (ih (b :: before) lineMode rfl (.cons hplain)).of_tail (clearAfter_cons hplain) [b] {} ?_
      (by simp [TTYInputAction.or])
    have hcode : ¬(flagAfter before = true ∧ b = 0x7e) := fun h => hplain ⟨(Bool.and_eq_true_iff.mp h.1).1, h.2⟩
    rw [processChunk_plain hcode, processInitiatorTTYInputChunk_eq, hwhole.flagAfter_cons]
  | case8 =>
    refine .inl ⟨fun sent rest heq _ hescape => ?_, rfl, rfl⟩
    obtain ⟨-, rfl⟩ := nil_eq_append_iff.mp heq
    cases hescape

/-- Escapes are recognised by the rule just on clear inputs, and how the input is split makes no difference. -/
theorem escapes_recognised (chunks : List Bytes) :
    (∀ state, processChunks chunks state = processChunk chunks.flatten state) ∧
      ((processChunks chunks {}).1 = (recognise false chunks.flatten).1 ∧
          (processChunks chunks {}).2.2 = (recognise false chunks.flatten).2 ↔ Clear chunks.flatten) := by
  refine ⟨processChunks_flatten chunks, ?_⟩
  rw [processChunks_flatten, ← clearAfter_nil]
  rcases processChunk_recognise [] chunks.flatten false false rfl nofun with ⟨hclear, hsame⟩ | ⟨hclear, hlt⟩
  · exact iff_of_true hsame hclear
  · exact iff_of_false (fun hsame => hlt.ne (congrArg length hsame.1).symm) hclear

theorem split_escapes_recognised :
    Clear [0x61, 0x0a, 0x7e, 0x7e, 0x0d, 0x7e, 0x0a, 0x7e, 0x0a, 0x7e, 0x3f, 0x0d, 0x7e, 0x2e, 0x0a, 0x7e, 0x0a, 0x7e, 0x2e] ∧
      processChunks [[0x61, 0x0a], [0x7e], [0x7e, 0x0d, 0x7e], [0x0a, 0x7e, 0x0a, 0x7e, 0x3f, 0x0d],
        [0x7e, 0x2e, 0x0a, 0x7e, 0x0a, 0x7e, 0x2e]] {} =
          ([0x61, 0x0a, 0x7e, 0x0d, 0x7e, 0x0a, 0x7e, 0x0a, 0x0d], {}, { stop := true, help := true }) :=
  ⟨(escapes_recognised [[0x61, 0x0a], [0x7e], [0x7e, 0x0d, 0x7e], [0x0a, 0x7e, 0x0a, 0x7e, 0x3f, 0x0d],
    [0x7e, 0x2e, 0x0a, 0x7e, 0x0a, 0x7e, 0x2e]]).2.mp (by decide), by decide⟩

/-- The newline that ends an unrecognised escape is sent, but the escape after it is not recognised. -/
theorem escape_after_unrecognised_missed :
    processChunks [[0x0a, 0x7e, 0x0a, 0x7e, 0x2e]] {} = ([0x0a, 0x7e, 0x0a, 0x7e, 0x2e], {}, {}) ∧
      recognise false [0x0a, 0x7e, 0x0a, 0x7e, 0x2e] = ([0x0a, 0x7e, 0x0a], { stop := true }) := by
  decide

end Reticulum.Gornsh
