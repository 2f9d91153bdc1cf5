import Reticulum.Theorems.Rrc.Maps

/-! # What the decoder comes across in an input

The outline of an input holds the items that the decoder gets to, whether it accepts the input or not. It says how deep the
calls of the decoder nest (`follows_value`) and what the value is made of. -/

namespace Reticulum.Rrc.Cbor

open Parse List

inductive Outline
  /-- An item that is refused for its depth, or not read because the one before it was not. -/
  | refused
  | broken
  | leaf (v : Value) (indefiniteText : Bool)
  | array (items : List Outline)
  | map (pairs : List (Outline × Outline))
  | tag (number : Nat) (item : Outline)

/-- What a reader comes across, and the rest of the input if it gets to the end. -/
abbrev Skim (α : Type) := Bytes → α × Option Bytes

namespace Skim

variable {α β γ : Type}

def follow (p : Skim α) (q : Skim β) (stop : α → γ) (go : α → β → γ) : Skim γ := fun s =>
  match p s with
  | (a, none) => (stop a, none)
  | (a, some rest) => (go a (q rest).1, (q rest).2)

def times (p : Skim α) : Nat → Skim (List α)
  | 0 => fun s => ([], some s)
  | n + 1 => p.follow (times p n) ([·]) (· :: ·)

def upTo (stop : UInt8) (p : Skim α) : Nat → Skim (List α)
  | 0 => fun _ => ([], none)
  | n + 1 => fun s =>
    match s with
    | [] => ([], none)
    | b :: s => if b = stop then ([], some s) else p.follow (upTo stop p n) ([·]) (· :: ·) (b :: s)

def elements (p : Skim α) (info : Nat) : Skim (List α) := fun s =>
  if info = 31 then p.upTo 0xff s.length s
  else
    match argOfDirect info s with
    | .error _ => ([], none)
    | .ok (n, s) => if n ≤ s.length ∧ n ≤ 2 ^ 28 then p.times n s else ([], none)

def pair (p : Skim Outline) : Skim (Outline × Outline) := p.follow p (·, .refused) Prod.mk

variable {p : Skim α} {Q : α → Prop}

/-- The items of what is read satisfy what every single one does. -/
theorem forall_times (h : ∀ s, Q (p s).1) : ∀ n s, ∀ a ∈ (p.times n s).1, Q a
  | 0, _ => by simp [times]
  | n + 1, s => by
    have hp := h s
    rw [times, follow]
    split <;> rename_i heq <;> rw [heq] at hp
    · simpa using hp
    · exact forall_mem_cons.mpr ⟨hp, forall_times h n _⟩

theorem forall_upTo (h : ∀ s, Q (p s).1) (stop : UInt8) :
    ∀ n s, ∀ a ∈ (p.upTo stop n s).1, Q a
  | 0, _ => by simp [upTo]
  | n + 1, [] => by simp [upTo]
  | n + 1, b :: s => by
    have hp := h (b :: s)
    rw [upTo]
    dsimp only
    split
    · simp
    · rw [follow]
      split <;> rename_i heq <;> rw [heq] at hp
      · simpa using hp
      · exact forall_mem_cons.mpr ⟨hp, forall_upTo h stop n _⟩

theorem forall_elements (h : ∀ s, Q (p s).1) (info : Nat) (s : Bytes) :
    ∀ a ∈ (p.elements info s).1, Q a := by
  rw [elements]
  split
  · exact forall_upTo h _ _ _
  · split
    · simp
    · split
      · exact forall_times h _ _
      · simp

theorem forall_pair {p : Skim Outline} {Q : Outline → Prop} (hrefused : Q .refused) (h : ∀ s, Q (p s).1) (s : Bytes) :
    Q (p.pair s).1.1 ∧ Q (p.pair s).1.2 := by
  have hp := h s
  rw [pair, follow]
  split <;> rename_i heq <;> rw [heq] at hp
  · exact ⟨hp, hrefused⟩
  · exact ⟨hp, h _⟩

end Skim

/-- The head of an item and what is behind it. -/
def outlineOf (item : Nat → Skim Outline) (depth : Nat) (b : UInt8) (s : Bytes) : Outline × Option Bytes :=
  let info := b.toNat % 32
  match b.toNat / 32 with
  | 4 =>
    let items := (item (depth + 1)).elements info s
    (.array items.1, items.2)
  | 5 =>
    let pairs := (item (depth + 1)).pair.elements info s
    (.map pairs.1, pairs.2)
  | 6 =>
    if info = 31 then (.broken, none)
    else
      match argOfDirect info s with
      | .error _ => (.broken, none)
      | .ok (number, s) => (.tag number (item depth s).1, (item depth s).2)
  | major =>
    match valueOf (fun _ => fail errFuel) depth major info s with
    | .error _ => (.broken, none)
    | .ok (v, rest) => (.leaf v (b = 0x7f), some rest)

/-- The first argument is fuel, as for `value`. -/
def outline : Nat → Nat → Skim Outline
  | 0, depth, _ => if maxDecodeDepth < depth then (.refused, none) else (.broken, none)
  | fuel + 1, depth, s =>
    if maxDecodeDepth < depth then (.refused, none)
    else
      match s with
      | [] => (.broken, none)
      | b :: s => outlineOf (outline fuel) depth b s

/-- The outline of an input, with enough fuel for the input and for the limit. -/
def outlineOfInput (data : Bytes) : Outline := (outline (max (data.length + 1) (maxDecodeDepth + 1)) 0 data).1

namespace Outline

mutual

/-- How deep the calls for the items nest: one for an item, and one for each array, map and tag around it. -/
def calls : Outline → Nat
  | refused => 0
  | broken | leaf _ _ => 1
  | array items => callsOf items + 1
  | map pairs => callsOfPairs pairs + 1
  | tag _ item => calls item + 1

def callsOf : List Outline → Nat
  | [] => 0
  | item :: items => max (calls item) (callsOf items)

def callsOfPairs : List (Outline × Outline) → Nat
  | [] => 0
  | (key, val) :: pairs => max (max (calls key) (calls val)) (callsOfPairs pairs)

end

mutual

def value : Outline → Value
  | refused | broken => .null
  | leaf v _ => v
  | array items => .array (values items)
  | map pairs => .map (Map.ofPairs (pairValues pairs))
  | tag number item => tagged number (value item)

def values : List Outline → List Value
  | [] => []
  | item :: items => value item :: values items

def pairValues : List (Outline × Outline) → List (Value × Value)
  | [] => []
  | (key, val) :: pairs => (value key, value val) :: pairValues pairs

end

end Outline

def NotFuel (e : String) : Prop := e ≠ errFuel

/-- What a parser with so much fuel gives, against the outline: it runs out of fuel just when the calls nest deeper. -/
inductive Agrees {α β : Type} (fuel : Nat) (calls : β → Nat) (value : β → α) :
    Except String (α × Bytes) → β × Option Bytes → Prop
  | deep {b : β} {rest : Option Bytes} : fuel < calls b → Agrees fuel calls value (.error errFuel) (b, rest)
  | stopped {b : β} {e : String} : calls b ≤ fuel → NotFuel e → Agrees fuel calls value (.error e) (b, none)
  | done {b : β} {rest : Bytes} : calls b ≤ fuel → Agrees fuel calls value (.ok (value b, rest)) (b, some rest)

def Follows {α β : Type} (fuel : Nat) (p : Parser String α) (o : Skim β) (calls : β → Nat) (value : β → α) : Prop :=
  ∀ s, Agrees fuel calls value (p s) (o s)

section

variable {α β γ α' β' γ' : Type} {fuel : Nat} {p : Parser String α} {q : Parser String β} {o : Skim α'} {o' : Skim β'}
  {calls : α' → Nat} {calls' : β' → Nat} {calls'' : γ' → Nat} {value : α' → α} {value' : β' → β} {value'' : γ' → γ}

theorem Follows.follow {stop : α' → γ'} {go : α' → β' → γ'} {f : α → β → γ} (hp : Follows fuel p o calls value)
    (hq : Follows fuel q o' calls' value') (hstop : ∀ a, calls'' (stop a) = calls a)
    (hgo : ∀ a b, calls'' (go a b) = max (calls a) (calls' b) ∧ value'' (go a b) = f (value a) (value' b)) :
    Follows fuel (do let a ← p; let b ← q; pure (f a b)) (o.follow o' stop go) calls'' value'' := by
  intro s
  have hp := hp s
  rw [Skim.follow, bind_eq]
  generalize p s = result, o s = outline at hp
  cases hp with
  | @deep a rest hdeep =>
    cases rest with
    | none => exact .deep (by rwa [hstop])
    | some rest => exact .deep ((hgo a _).1 ▸ lt_max_of_lt_left hdeep)
  | stopped hle hne => exact .stopped (by rwa [hstop]) hne
  | @done a rest hle =>
    have hq := hq rest
    show Agrees fuel calls'' value'' ((q >>= fun b => pure (f (value a) b)) rest) (go a (o' rest).1, (o' rest).2)
    rw [bind_eq]
    generalize q rest = result, o' rest = outline at hq
    cases hq with
    | deep hdeep => exact .deep ((hgo a _).1 ▸ lt_max_of_lt_right hdeep)
    | stopped hle' hne => exact .stopped ((hgo a _).1 ▸ max_le hle hle') hne
    | @done b rest hle' =>
      show Agrees fuel calls'' value'' (.ok (f (value a) (value' b), rest)) _
      rw [← (hgo a b).2]
      exact .done ((hgo a b).1 ▸ max_le hle hle')

instance (e : String) : Decidable (NotFuel e) := inferInstanceAs (Decidable (_ ≠ _))

/-- One more call around the others. -/
theorem Agrees.wrap {result : Except String (α × Bytes)} {x : α' × Option Bytes} {f : α' → γ'} {g : α → γ}
    (h : Agrees fuel calls value result x) (hcalls : ∀ a, calls'' (f a) = calls a + 1)
    (hvalue : ∀ a, value'' (f a) = g (value a)) :
    Agrees (fuel + 1) calls'' value'' (result.bind fun y => .ok (g y.1, y.2)) (f x.1, x.2) := by
  cases h with
  | deep hdeep => exact .deep (hcalls _ ▸ Nat.succ_lt_succ hdeep)
  | stopped hle hne => exact .stopped (hcalls _ ▸ Nat.succ_le_succ hle) hne
  | done hle =>
    dsimp only [Except.bind]
    rw [← hvalue]
    exact .done (hcalls _ ▸ Nat.succ_le_succ hle)

theorem notFuel_truncated : NotFuel errTruncated := by decide

variable {callsOf : List α' → Nat} (hp : Follows fuel p o calls value)
  (hcalls : callsOf [] = 0 ∧ ∀ a as, callsOf (a :: as) = max (calls a) (callsOf as))
include hp hcalls

theorem Follows.times : ∀ n, Follows fuel (times p n) (o.times n) callsOf (List.map value)
  | 0 => fun _ => .done (hcalls.1 ▸ Nat.zero_le fuel)
  | n + 1 => by
    refine hp.follow (Follows.times n) (fun a => ?_) fun a as => ⟨hcalls.2 a as, rfl⟩
    rw [hcalls.2, hcalls.1, Nat.max_zero]

theorem Follows.upTo (stop : UInt8) : ∀ n, Follows fuel (upTo errTruncated stop p n) (o.upTo stop n) callsOf (List.map value)
  | 0 => fun _ => .stopped (hcalls.1 ▸ Nat.zero_le fuel) notFuel_truncated
  | n + 1 => by
    rintro (_ | ⟨b, s⟩)
    · exact .stopped (hcalls.1 ▸ Nat.zero_le fuel) notFuel_truncated
    · rw [Skim.upTo, Parse.upTo, bind_eq]
      dsimp only [peekByte, Except.bind]
      split_ifs with hstop
      · exact .done (hcalls.1 ▸ Nat.zero_le fuel)
      · refine hp.follow (Follows.upTo stop n) (fun a => ?_) (fun a as => ⟨hcalls.2 a as, rfl⟩) (b :: s)
        rw [hcalls.2, hcalls.1, Nat.max_zero]

end

theorem raises_argOfDirect (info : Nat) : Raises (argOfDirect info) NotFuel := by
  have hbytes : ∀ n, Raises (beNat <$> takeBytes n) NotFuel := fun n => (raises_take errTruncated n notFuel_truncated).map
  refine .ite (raises_pure _) (.ite (hbytes 1) (.ite (hbytes 2) (.ite (hbytes 4) (.ite (hbytes 8) ?_))))
  exact .ite (raises_fail (by decide)) (raises_fail (by simp [NotFuel, errFuel]))

theorem raises_stringOf (major info : Nat) : Raises (stringOf major info) NotFuel := by
  have htake : ∀ n, Raises (takeBytes n) NotFuel := fun n => raises_take errTruncated n notFuel_truncated
  have hchunk : Raises (chunk major) NotFuel :=
    (raises_byteAt errTruncated notFuel_truncated).bind fun _ => (raises_ensure (by decide)).bind fun _ =>
      (raises_argOfDirect _).bind htake
  refine .ite (.bind (fun _ _ => nofun) fun n => ?_) ?_
  · exact (hchunk.upTo errTruncated notFuel_truncated 0xff n).bind fun _ => raises_pure _
  · exact (raises_argOfDirect info).bind fun n => (htake n).bind fun c =>
      .ite (raises_pure _) ((raises_ensure (by decide)).bind fun _ => raises_pure _)

theorem raises_simpleOf (info : Nat) : Raises (simpleOf info) NotFuel := by
  have htake : ∀ n, Raises (takeBytes n) NotFuel := fun n => raises_take errTruncated n notFuel_truncated
  refine .ite (raises_pure _) (.ite (raises_pure _) (.ite (raises_pure _) (.ite (raises_fail ?_) (.ite ?_ ?_))))
  · simp [NotFuel, errFuel]
  · exact (htake 1).bind fun _ => raises_fail (by simp [NotFuel, errFuel])
  · refine .ite (htake 2).map (.ite (htake 4).map (.ite (htake 8).map (.ite (raises_fail (by decide)) (raises_fail ?_))))
    simp [NotFuel, errFuel]

theorem raises_leafOf {value : Nat → Parser String Value} (depth : Nat) {major : Nat} (hmajor : major ∉ [4, 5, 6])
    (info : Nat) : Raises (valueOf value depth major info) NotFuel := by
  rw [valueOf.eq_def]
  split
  · exact (raises_argOfDirect info).map
  · exact (raises_argOfDirect info).bind fun _ => (raises_ensure (by decide)).bind fun _ => raises_pure _
  · exact raises_stringOf 2 info
  · exact raises_stringOf 3 info
  · simp at hmajor
  · simp at hmajor
  · simp at hmajor
  · exact raises_simpleOf info
  · exact raises_fail (by simp [NotFuel, errFuel])

theorem Follows.elements {α α' : Type} {fuel : Nat} {p : Parser String α} {o : Skim α'} {calls : α' → Nat}
    {value : α' → α} {callsOf : List α' → Nat} (hp : Follows fuel p o calls value)
    (hcalls : callsOf [] = 0 ∧ ∀ a as, callsOf (a :: as) = max (calls a) (callsOf as)) (info : Nat) :
    Follows fuel (elements p info) (o.elements info) callsOf (List.map value) := by
  intro s
  have hnil : callsOf [] ≤ fuel := hcalls.1 ▸ Nat.zero_le fuel
  rw [Cbor.elements, Skim.elements]
  split_ifs
  · exact hp.upTo hcalls 0xff s.length s
  · rw [bind_eq]
    cases harg : argOfDirect info s with
    | error e => exact .stopped hnil (raises_argOfDirect info s e harg)
    | ok x =>
      obtain ⟨n, rest⟩ := x
      dsimp only [Except.bind]
      show Agrees fuel callsOf (List.map value) (((ensure (n ≤ rest.length) errTruncated) >>= fun _ =>
        ensure (n ≤ 2 ^ 28) errTruncated >>= fun _ => Parse.times p n) rest) _
      by_cases hn : n ≤ rest.length
      · by_cases hmax : n ≤ 2 ^ 28
        · rw [ensure, if_pos hn, ensure, if_pos hmax, if_pos ⟨hn, hmax⟩]
          exact hp.times hcalls n rest
        · rw [ensure, if_pos hn, ensure, if_neg hmax, if_neg fun h => hmax h.2]
          exact .stopped hnil notFuel_truncated
      · rw [ensure, if_neg hn, if_neg fun h => hn h.1]
        exact .stopped hnil notFuel_truncated

theorem values_eq_map (items : List Outline) : Outline.values items = items.map Outline.value := by
  induction items with
  | nil => rfl
  | cons item items ih => rw [Outline.values, ih, map_cons]

theorem pairValues_eq_map (pairs : List (Outline × Outline)) :
    Outline.pairValues pairs = pairs.map fun p => (p.1.value, p.2.value) := by
  induction pairs with
  | nil => rfl
  | cons pair pairs ih =>
    rw [map_cons, ← ih]
    rfl

variable {fuel depth : Nat}

theorem outline_refused (hd : maxDecodeDepth < depth) (s : Bytes) :
    outline fuel depth s = (.refused, none) := by
  cases fuel <;> exact if_pos hd

theorem outline_nil (hd : depth ≤ maxDecodeDepth) : outline (fuel + 1) depth [] = (.broken, none) :=
  if_neg (Nat.not_lt.mpr hd)

theorem outline_cons (hd : depth ≤ maxDecodeDepth) (b : UInt8) (s : Bytes) :
    outline (fuel + 1) depth (b :: s) = outlineOf (outline fuel) depth b s := if_neg (Nat.not_lt.mpr hd)

theorem outlineOf_leaf {item : Nat → Skim Outline} {depth : Nat} {b : UInt8} {s : Bytes}
    (hmajor : b.toNat / 32 ∉ [4, 5, 6]) : outlineOf item depth b s =
      match valueOf (fun _ => fail errFuel) depth (b.toNat / 32) (b.toNat % 32) s with
      | .error _ => (.broken, none)
      | .ok (v, rest) => (.leaf v (b = 0x7f), some rest) := by
  rw [outlineOf.eq_def]
  dsimp only
  split
  · next h => simp [h] at hmajor
  · next h => simp [h] at hmajor
  · next h => simp [h] at hmajor
  · rfl

/-- A value that holds no others is read without the reader of values. -/
theorem valueOf_leaf {value value' : Nat → Parser String Value} {depth major info : Nat} (hmajor : major ∉ [4, 5, 6]) :
    valueOf value depth major info = valueOf value' depth major info := by
  rw [valueOf.eq_def, valueOf.eq_def]
  split <;> first | rfl | simp at hmajor

theorem one_le_calls (hd : depth ≤ maxDecodeDepth) (s : Bytes) : 1 ≤ (outline fuel depth s).1.calls := by
  rcases fuel with _ | fuel
  · rw [outline, if_neg (Nat.not_lt.mpr hd)]
    exact le_rfl
  rcases s with _ | ⟨b, s⟩
  · rw [outline_nil hd]
    exact le_rfl
  · rw [outline_cons hd, outlineOf.eq_def]
    dsimp only
    repeat' split
    all_goals exact Nat.succ_le_succ (Nat.zero_le _)

/-- The decoder reads what the outline says, and its calls nest as deep as the outline says. -/
theorem follows_value (fuel : Nat) : ∀ {fuel' : Nat} (depth : Nat), fuel ≤ fuel' →
    Follows fuel (value fuel depth) (outline fuel' depth) Outline.calls Outline.value := by
  induction fuel with
  | zero =>
    intro fuel' depth _ s
    by_cases hd : depth ≤ maxDecodeDepth
    · rw [value, ensure, if_pos hd]
      exact .deep (one_le_calls hd s)
    · rw [value, ensure, if_neg hd, outline_refused (Nat.lt_of_not_le hd)]
      exact .stopped le_rfl (by decide)
  | succ fuel ih =>
    intro fuel' depth hfuel s
    obtain ⟨fuel', rfl⟩ : ∃ n, fuel' = n + 1 := ⟨fuel' - 1, by omega⟩
    have ih := fun depth => @ih fuel' depth (Nat.le_of_succ_le_succ hfuel)
    by_cases hd : depth ≤ maxDecodeDepth
    · rw [value, ensure, if_pos hd]
      cases s with
      | nil =>
        rw [outline_nil hd]
        exact .stopped (Nat.succ_le_succ (Nat.zero_le _)) notFuel_truncated
      | cons b s =>
        rw [outline_cons hd]
        show Agrees _ _ _ (valueOf (value fuel) depth (b.toNat / 32) (b.toNat % 32) s) (outlineOf (outline fuel') depth b s)
        by_cases hmajor : b.toNat / 32 ∈ [4, 5, 6]
        · simp only [mem_cons, not_mem_nil, or_false] at hmajor
          rcases hmajor with hmajor | hmajor | hmajor
          · rw [outlineOf.eq_def, hmajor]
            exact ((ih (depth + 1)).elements ⟨rfl, fun _ _ => rfl⟩ _ s).wrap (fun _ => rfl) fun items =>
              congrArg Value.array (values_eq_map items)
          · have hpair : Follows fuel (pairOf (value fuel (depth + 1))) (outline fuel' (depth + 1)).pair
                (fun p => max p.1.calls p.2.calls) fun p => (p.1.value, p.2.value) :=
              (ih (depth + 1)).follow (ih (depth + 1)) (fun a => Nat.max_zero _) fun _ _ => ⟨rfl, rfl⟩
            have hpairs : Agrees fuel Outline.callsOfPairs _ _ _ := hpair.elements ⟨rfl, fun _ _ => rfl⟩ (b.toNat % 32) s
            rw [outlineOf.eq_def, hmajor]
            exact hpairs.wrap (f := Outline.map) (g := fun pairs => Value.map (Map.ofPairs pairs)) (fun _ => rfl) fun pairs =>
              congrArg (fun pairs => Value.map (Map.ofPairs pairs)) (pairValues_eq_map pairs)
          · rw [outlineOf.eq_def, hmajor]
            dsimp only
            show Agrees _ _ _ ((ensure (b.toNat % 32 ≠ 31) _ >>= fun _ => argOfDirect (b.toNat % 32) >>= fun number =>
              tagged number <$> value fuel depth) s) _
            by_cases hinfo : b.toNat % 32 = 31
            · rw [ensure, if_neg (not_not.mpr hinfo), if_pos hinfo]
              exact .stopped (Nat.succ_le_succ (Nat.zero_le _)) (by decide)
            · rw [ensure, if_pos hinfo, if_neg hinfo]
              show Agrees _ _ _ ((argOfDirect (b.toNat % 32) s).bind _) _
              cases harg : argOfDirect (b.toNat % 32) s with
              | error e => exact .stopped (Nat.succ_le_succ (Nat.zero_le _)) (raises_argOfDirect _ s e harg)
              | ok x => exact (ih depth x.2).wrap (fun _ => rfl) fun _ => rfl
        · rw [outlineOf_leaf hmajor, valueOf_leaf hmajor]
          cases hv : valueOf (fun _ => fail errFuel) depth (b.toNat / 32) (b.toNat % 32) s with
          | error e => exact .stopped (Nat.succ_le_succ (Nat.zero_le _)) (raises_leafOf depth hmajor _ s e hv)
          | ok x => exact @Agrees.done _ _ _ Outline.calls Outline.value (.leaf x.1 _) x.2 (Nat.succ_le_succ (Nat.zero_le _))
    · rw [value, ensure, if_neg hd, outline_refused (Nat.lt_of_not_le hd)]
      exact .stopped (Nat.zero_le _) (by decide)

theorem calls_outlineOfInput (data : Bytes) {fuel : Nat} (hfuel : fuel ≤ max (data.length + 1) (maxDecodeDepth + 1)) :
    value fuel 0 data = .error errFuel ↔ fuel < (outlineOfInput data).calls := by
  have h := follows_value fuel 0 hfuel data
  unfold outlineOfInput
  generalize value fuel 0 data = result, outline _ 0 data = x at h
  cases h with
  | deep hdeep => exact iff_of_true rfl hdeep
  | stopped hle hne => exact iff_of_false (fun h => hne (Except.error.inj h)) (Nat.not_lt.mpr hle)
  | done hle => exact iff_of_false nofun (Nat.not_lt.mpr hle)

theorem value_outlineOfInput {data : Bytes} {v : Value} (h : decode data = .ok v) : v = (outlineOfInput data).value := by
  have hfollows := follows_value (data.length + 1) 0 (le_max_left _ (maxDecodeDepth + 1)) data
  rw [decode] at h
  unfold outlineOfInput
  generalize value (data.length + 1) 0 data = result, outline _ 0 data = x at h hfollows
  cases hfollows with
  | deep | stopped => cases h
  | done =>
    cases h
    rfl

/-- What holds of the items that hold no others, and goes from the items to what they are in, holds of every outline. -/
theorem outline_induction {Q : Nat → Outline → Prop} (refused : ∀ depth, Q depth .refused)
    (broken : ∀ depth ≤ maxDecodeDepth, Q depth .broken)
    (leaf : ∀ depth ≤ maxDecodeDepth, ∀ v indefiniteText,
      (∀ s, v = .text s → indefiniteText = true ∨ Text.valid s = true) → v.Leaf → Q depth (.leaf v indefiniteText))
    (array : ∀ depth ≤ maxDecodeDepth, ∀ items, (∀ o ∈ items, Q (depth + 1) o) → Q depth (.array items))
    (map : ∀ depth ≤ maxDecodeDepth, ∀ pairs, (∀ p ∈ pairs, Q (depth + 1) p.1 ∧ Q (depth + 1) p.2) → Q depth (.map pairs))
    (tag : ∀ depth ≤ maxDecodeDepth, ∀ number item, Q depth item → Q depth (.tag number item)) (fuel : Nat) :
    ∀ depth s, Q depth (outline fuel depth s).1 := by
  induction fuel with
  | zero =>
    intro depth s
    rw [outline]
    split_ifs with hd
    · exact refused depth
    · exact broken depth (Nat.not_lt.mp hd)
  | succ fuel ih =>
    intro depth s
    by_cases hd : depth ≤ maxDecodeDepth
    · rcases s with _ | ⟨b, s⟩
      · rw [outline_nil hd]
        exact broken depth hd
      rw [outline_cons hd]
      by_cases hmajor : b.toNat / 32 ∈ [4, 5, 6]
      · rw [outlineOf.eq_def]
        simp only [mem_cons, not_mem_nil, or_false] at hmajor
        rcases hmajor with hmajor | hmajor | hmajor <;> rw [hmajor] <;> dsimp only
        · exact array depth hd _ (Skim.forall_elements (ih (depth + 1)) _ s)
        · exact map depth hd _ (Skim.forall_elements (Skim.forall_pair (refused _) (ih (depth + 1))) _ s)
        · split_ifs
          · exact broken depth hd
          · cases argOfDirect (b.toNat % 32) s with
            | error e => exact broken depth hd
            | ok x => exact tag depth hd _ _ (ih depth _)
      · rw [outlineOf_leaf hmajor]
        split
        · exact broken depth hd
        · next v rest hv =>
          obtain ⟨hleaf, htext⟩ := yields_leafOf depth hmajor _ s v rest hv
          refine leaf depth hd v _ (fun t ht => (htext t ht).imp_left fun h => ?_) hleaf
          have hb : b = 0x7f := UInt8.toNat_inj.mp (show b.toNat = 127 by omega)
          exact decide_eq_true hb
    · rw [outline_refused (Nat.lt_of_not_le hd)]
      exact refused depth

/-! ### What lies inside what -/

/-- The second outline occurs in the first, inside so many arrays, maps and tags. -/
inductive Inside : Nat → Outline → Outline → Prop
  | here {o : Outline} : Inside 0 o o
  | item {n : Nat} {items : List Outline} {o o' : Outline} : o ∈ items → Inside n o o' → Inside (n + 1) (.array items) o'
  | key {n : Nat} {pairs : List (Outline × Outline)} {p : Outline × Outline} {o : Outline} :
    p ∈ pairs → Inside n p.1 o → Inside (n + 1) (.map pairs) o
  | val {n : Nat} {pairs : List (Outline × Outline)} {p : Outline × Outline} {o : Outline} :
    p ∈ pairs → Inside n p.2 o → Inside (n + 1) (.map pairs) o
  | tag {n number : Nat} {item o : Outline} : Inside n item o → Inside (n + 1) (.tag number item) o

theorem callsOf_le {items : List Outline} {n : Nat} : Outline.callsOf items ≤ n ↔ ∀ o ∈ items, o.calls ≤ n := by
  induction items with
  | nil => simp [Outline.callsOf]
  | cons item items ih => rw [Outline.callsOf, max_le_iff, ih, forall_mem_cons]

theorem callsOfPairs_le {pairs : List (Outline × Outline)} {n : Nat} :
    Outline.callsOfPairs pairs ≤ n ↔ ∀ p ∈ pairs, p.1.calls ≤ n ∧ p.2.calls ≤ n := by
  induction pairs with
  | nil => simp [Outline.callsOfPairs]
  | cons pair pairs ih => rw [Outline.callsOfPairs, max_le_iff, max_le_iff, ih, forall_mem_cons]

theorem calls_of_inside {n : Nat} {o o' : Outline} (h : Inside n o o') : n + o'.calls ≤ o.calls := by
  induction h with
  | here => exact (Nat.zero_add _).le
  | item ho _ ih =>
    have hle := callsOf_le.mp le_rfl _ ho
    rw [Outline.calls]
    omega
  | key hp _ ih =>
    have hle := (callsOfPairs_le.mp le_rfl _ hp).1
    rw [Outline.calls]
    omega
  | val hp _ ih =>
    have hle := (callsOfPairs_le.mp le_rfl _ hp).2
    rw [Outline.calls]
    omega
  | tag _ ih =>
    rw [Outline.calls]
    omega

/-- Arrays and maps keep to the limit, so that only what is inside a tag can lie deeper. -/
theorem calls_le_of_tags (fuel depth : Nat) (s : Bytes) (hdepth : depth ≤ maxDecodeDepth + 1)
    (h : ∀ n number o, Inside n (outline fuel depth s).1 (.tag number o) →
      depth + n + (Outline.tag number o).calls ≤ maxDecodeDepth + 1) :
    depth + (outline fuel depth s).1.calls ≤ maxDecodeDepth + 1 := by
  refine outline_induction (Q := fun depth root => depth ≤ maxDecodeDepth + 1 → (∀ n number o,
      Inside n root (.tag number o) → depth + n + (Outline.tag number o).calls ≤ maxDecodeDepth + 1) →
    depth + root.calls ≤ maxDecodeDepth + 1) ?_ ?_ ?_ ?_ ?_ ?_ fuel depth s hdepth h
  · exact fun depth hd _ => hd
  · exact fun depth hd _ _ => Nat.succ_le_succ hd
  · exact fun depth hd v _ _ _ _ _ => Nat.succ_le_succ hd
  · intro depth hd items ih _ h
    have hitems : Outline.callsOf items ≤ maxDecodeDepth - depth := callsOf_le.mpr fun o ho => by
      have := ih o ho (Nat.succ_le_succ hd) fun n number o' hin => by
        have := h (n + 1) number o' (.item ho hin)
        omega
      omega
    rw [Outline.calls]
    omega
  · intro depth hd pairs ih _ h
    have hpairs : Outline.callsOfPairs pairs ≤ maxDecodeDepth - depth := callsOfPairs_le.mpr fun p hp => by
      have hkey := (ih p hp).1 (Nat.succ_le_succ hd) fun n number o' hin => by
        have := h (n + 1) number o' (.key hp hin)
        omega
      have hval := (ih p hp).2 (Nat.succ_le_succ hd) fun n number o' hin => by
        have := h (n + 1) number o' (.val hp hin)
        omega
      omega
    rw [Outline.calls]
    omega
  · exact fun depth hd number item _ _ h => h 0 number item .here

/-! ### Texts that stay in the value -/

/-- What `Map.set` does, on outlines. -/
def keep (m : List (Outline × Outline)) (p : Outline × Outline) : List (Outline × Outline) :=
  match m with
  | [] => [p]
  | q :: m => if keyEqual q.1.value p.1.value then (q.1, p.2) :: m else q :: keep m p

/-- The pairs that stay in a map: of equal keys the first, with the value of the last. -/
def kept (pairs : List (Outline × Outline)) : List (Outline × Outline) := pairs.foldl keep []

theorem forall_kept {K V : Outline → Prop} {pairs : List (Outline × Outline)} (h : ∀ p ∈ pairs, K p.1 ∧ V p.2) :
    ∀ p ∈ kept pairs, K p.1 ∧ V p.2 := by
  refine foldlRecOn (motive := fun m => ∀ p ∈ m, K p.1 ∧ V p.2) pairs keep (forall_mem_nil _) fun m hm p hp => ?_
  induction m with
  | nil => simpa [keep] using h p hp
  | cons q m ih =>
    obtain ⟨hq, hm⟩ := forall_mem_cons.mp hm
    rw [keep]
    split_ifs
    · exact forall_mem_cons.mpr ⟨⟨hq.1, (h p hp).2⟩, hm⟩
    · exact forall_mem_cons.mpr ⟨hq, ih hm⟩

theorem map_keep (m : List (Outline × Outline)) (p : Outline × Outline) :
    (keep m p).map (fun q => (q.1.value, q.2.value)) =
      Map.set (m.map fun q => (q.1.value, q.2.value)) p.1.value p.2.value := by
  induction m with
  | nil => rfl
  | cons q m ih =>
    rw [keep, map_cons, Map.set]
    split_ifs
    · rfl
    · rw [map_cons, ih]

theorem map_kept (pairs : List (Outline × Outline)) :
    (kept pairs).map (fun p => (p.1.value, p.2.value)) = Map.ofPairs (Outline.pairValues pairs) := by
  rw [pairValues_eq_map, Map.ofPairs, foldl_map, kept]
  induction pairs using reverseRecOn with
  | nil => rfl
  | append_singleton pairs p ih => rw [foldl_append, foldl_append, ← ih, foldl_cons, foldl_nil, map_keep, foldl_cons, foldl_nil]

/-- A text string of indefinite length that stays in the value. -/
inductive Kept : Outline → Bytes → Prop
  | text {s : Bytes} : Kept (.leaf (.text s) true) s
  | item {items : List Outline} {o : Outline} {s : Bytes} : o ∈ items → Kept o s → Kept (.array items) s
  | key {pairs : List (Outline × Outline)} {p : Outline × Outline} {s : Bytes} :
    p ∈ kept pairs → Kept p.1 s → Kept (.map pairs) s
  | val {pairs : List (Outline × Outline)} {p : Outline × Outline} {s : Bytes} :
    p ∈ kept pairs → Kept p.2 s → Kept (.map pairs) s
  | tag {number : Nat} {item : Outline} {s : Bytes} : Kept item s → Kept (.tag number item) s

end Reticulum.Rrc.Cbor
