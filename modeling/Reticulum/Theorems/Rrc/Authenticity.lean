import Reticulum.Rrc.Bans
import Reticulum.Theorems.Rrc.Addressing
import Reticulum.Theorems.Rrc.Maps

/-! # What becomes of a message that the hub forwards

A map holds a bignum key apart from the integer of the same value, and the encoder writes both as that integer. -/

namespace Reticulum.Rrc

open Cbor List SessionManager RoomManager

variable {u : Unit} {v key : Value} {env m : Map}

/-! ### Validated envelopes -/

structure Validated (env : Map) : Prop where
  keys : ∀ p ∈ env, isIntLike p.1 = true
  src : ∃ b, env.get kSrc = some (.bytes b)
  room : ∀ v, env.get kRoom = some v → ∃ s, v = .text s
  nick : ∀ v, env.get kNick = some v → ∃ s, v = .text s
  dst : ∀ v, env.get kDst = some v → ∃ b, v = .bytes b

theorem bind_eq_ok {α β : Type} {x : Except String α} {f : α → Except String β} {b : β} (h : x >>= f = .ok b) :
    ∃ a, x = .ok a ∧ f a = .ok b := by
  cases x with
  | error e => cases h
  | ok a => exact ⟨a, rfl, h⟩

theorem require_eq_ok {c : Bool} {e : String} (h : require c e = .ok u) : c = true := by
  rw [require] at h
  split at h
  · assumption
  · cases h

theorem forM_eq_ok {α : Type} {f : α → Except String Unit} : ∀ {l : List α} {u : Unit}, l.forM f = .ok u →
    ∀ a ∈ l, f a = .ok ()
  | [], _, _, a, ha => by cases ha
  | b :: l, u, h, a, ha => by
    obtain ⟨_, hb, hl⟩ := bind_eq_ok h
    rcases mem_cons.mp ha with rfl | ha
    · exact hb
    · exact forM_eq_ok hl a ha

theorem isText_iff : isText v = true ↔ ∃ s, v = .text s := by cases v <;> simp [isText]

theorem isBytes_iff : isBytes v = true ↔ ∃ b, v = .bytes b := by cases v <;> simp [isBytes]

theorem optional_eq_ok {ok : Value → Bool} {e : String}
    (h : optional env key ok e = .ok u) : ∀ v, env.get key = some v → ok v = true := by
  intro v hv
  rw [optional, hv] at h
  exact require_eq_ok h

theorem validated_of_validateEnvelope (h : validateEnvelope env = .ok u) : Validated env := by
  obtain ⟨_, hkeys, h⟩ := bind_eq_ok h
  obtain ⟨_, hhas, h⟩ := bind_eq_ok h
  iterate 7 obtain ⟨_, _, h⟩ := bind_eq_ok h
  obtain ⟨_, hsrc, h⟩ := bind_eq_ok h
  obtain ⟨_, hroom, h⟩ := bind_eq_ok h
  obtain ⟨_, hnick, hdst⟩ := bind_eq_ok h
  refine ⟨fun p hp => ?_, ?_, fun v hv => ?_, fun v hv => ?_, fun v hv => ?_⟩
  · obtain ⟨_, hkey, _⟩ := bind_eq_ok (forM_eq_ok hkeys p hp)
    exact require_eq_ok hkey
  · obtain ⟨b, hb⟩ := isBytes_iff.mp (require_eq_ok hsrc)
    cases hget : env.get kSrc with
    | none => simp [hget] at hb
    | some v =>
      rw [hget] at hb
      exact ⟨b, congrArg some hb⟩
  · exact isText_iff.mp (optional_eq_ok hroom v hv)
  · exact isText_iff.mp (optional_eq_ok hnick v hv)
  · exact isBytes_iff.mp (optional_eq_ok hdst v hv)

structure Accepted (env : Map) : Prop extends Validated env where
  distinct : env.Distinct
  shallow : ∀ p ∈ env, Shallow 63 p.1 ∧ Shallow 63 p.2

theorem accepted_of_decodeEnvelope {data : Bytes} (h : decodeEnvelope data = .ok env) :
    Accepted env ∧ decode data = .ok (.map env) := by
  obtain ⟨v, hdecode, h⟩ := bind_eq_ok h
  cases v with
  | map m =>
    obtain ⟨_, hvalid, ⟨⟩⟩ := bind_eq_ok h
    have hdecoded := decoded_of_decode hdecode
    have hshallow := hdecoded.shallow
    refine ⟨⟨validated_of_validateEnvelope hvalid, hdecoded.distinct env rfl, fun p hp => ⟨?_, ?_⟩⟩, hdecode⟩
    · exact hshallow _ (mem_parts_map.mpr ⟨p, hp, .inl rfl⟩)
    · exact hshallow _ (mem_parts_map.mpr ⟨p, hp, .inr rfl⟩)
  | _ => cases h

/-! ### The property and the condition -/

def isDirect (env : Map) : Bool := (env.get kT).bind intValue == some tNotice && !isNil (env.get kDst)

def roomOf (cfg : Config) (env : Map) : Option Bytes :=
  if isDirect env then none else (roomPtrOf (env.get kRoom)).bind fun room => (normRoom cfg room).toOption

/-- The recipient of a payload reads it as coming from the peer, in the room that the message is for. -/
def Authentic (cfg : Config) (peerHash : Bytes) (env : Map) (payload : Bytes) : Prop :=
  ∃ received : Map, decode payload = .ok (.map received) ∧ received.get kSrc = some (.bytes peerHash) ∧
    received.get kRoom = (roomOf cfg env).map .text

/-- The last key that denotes the integer is the integer itself, or comes with the wanted value anyway. -/
def Kept (n : Nat) (want : Option Value) (env : Map) : Prop :=
  ∀ p, (env.filter fun p => denotes n p.1).getLast? = some p →
    keyEqual p.1 (.int64 (Int64.ofNat n)) = true ∨ some p.2 = want

def pairsSent (cfg : Config) (nick : Option Bytes) (env : Map) : Nat :=
  match env.get kNick with
  | some (.text s) => if normalizeNick s cfg.maxNickBytes = [] then env.length - 1 else env.length
  | some _ => env.length - 1
  | none => if nick.all fun s => normalizeNick s cfg.maxNickBytes = [] then env.length else env.length + 1

def nickSent (cfg : Config) (nick : Option Bytes) (env : Map) : Option Bytes :=
  let normalized := fun s =>
    if normalizeNick s cfg.maxNickBytes = [] then none else some (normalizeNick s cfg.maxNickBytes)
  match env.get kNick with
  | some (.text s) => normalized s
  | some _ => none
  | none => nick.bind normalized

def valueSize (v : Option Value) : Nat := v.elim 0 fun v => (encode v).length

/-- The size of a nickname and its key. -/
def nickSize (v : Option Value) : Nat := v.elim 0 fun v => (encode v).length + 1

/-- The bytes that the hub writes into an envelope. -/
def written (cfg : Config) (nick : Option Bytes) (peerHash : Bytes) (env : Map) : Nat :=
  (encode (.bytes peerHash)).length + valueSize ((roomOf cfg env).map .text) + nickSize ((nickSent cfg nick env).map .text)

/-- The bytes of the envelope that these replace. -/
def overwritten (env : Map) : Nat := valueSize (env.get kSrc) + valueSize (env.get kRoom) + nickSize (env.get kNick)

/-- No bignum stands for one of the two keys, and everything that is passed on can be decoded again. -/
structure Untampered (cfg : Config) (nick : Option Bytes) (peerHash : Bytes) (env : Map) : Prop where
  src : Kept 4 (some (.bytes peerHash)) env
  room : Kept 5 ((roomOf cfg env).map .text) env
  values : ∀ p ∈ env, keyEqual p.1 kRoom = true ∨ keyEqual p.1 kNick = true ∨ Portable p.2
  size : pairsSent cfg nick env ≤ 2 ^ 28

/-! ### What is forwarded -/

section

variable {m : Map} {n : Nat} {k : Int64} {ks : List Int64} {val : Value}
variable {w : Value}

/-- The value can be decoded again unless it is under one of the keys. -/
def PortableBut (ks : List Int64) (p : Value × Value) : Prop :=
  (∃ k ∈ ks, keyEqual p.1 (.int64 k) = true) ∨ Portable p.2

theorem portableBut_cons {p : Value × Value} :
    PortableBut (k :: ks) p ↔ keyEqual p.1 (.int64 k) = true ∨ PortableBut ks p := by
  simp [PortableBut, or_assoc]

theorem forall_set_portableBut (hd : m.Distinct) (hval : Portable val) :
    (∀ p ∈ Map.set m (.int64 k) val, PortableBut ks p) ↔ ∀ p ∈ m, PortableBut (k :: ks) p := by
  simp only [portableBut_cons]
  cases hget : m.get (.int64 k) with
  | none =>
    have hnot := fun p (hp : p ∈ m) => keyEqual_of_get_eq_none hget hp
    rw [set_of_get_eq_none hget, forall_mem_append]
    refine ⟨fun ⟨h, _⟩ p hp => .inr (h p hp), fun h => ⟨fun p hp => ?_, ?_⟩⟩
    · exact (h p hp).resolve_left (by simp [hnot p hp])
    · simp [PortableBut, hval]
  | some w =>
    rw [set_of_get_eq_some hd hget, forall_mem_map]
    refine forall₂_congr fun p _ => ?_
    by_cases hp : keyEqual p.1 (.int64 k) = true
    · simp [Map.update, hp, PortableBut, hval]
    · simp [Map.update, hp]

theorem forall_pop_portableBut (hd : m.Distinct) :
    (∀ p ∈ Map.pop m (.int64 k), PortableBut ks p) ↔ ∀ p ∈ m, PortableBut (k :: ks) p := by
  simp only [portableBut_cons, pop_eq_filter hd, mem_filter, Bool.not_eq_true', and_imp]
  refine forall₂_congr fun p _ => ?_
  by_cases hp : keyEqual p.1 (.int64 k) = true <;> simp [hp]

theorem kept_iff_of_last {want : Option Value} {p : Value × Value}
    (h : (m.filter fun p => denotes n p.1).getLast? = some p) :
    Kept n want m ↔ keyEqual p.1 (.int64 (Int64.ofNat n)) = true ∨ some p.2 = want := by
  rw [Kept, h]
  refine ⟨fun hall => hall p rfl, ?_⟩
  rintro hp q ⟨⟩
  exact hp

theorem last_update_iff (hn : n < 2 ^ 53) (hval : (∃ b, val = .bytes b) ∨ ∃ s, val = .text s)
    (hget : m.get (.int64 (Int64.ofNat n)) = some w) :
    (((m.filter fun p => denotes n p.1).map (Map.update (.int64 (Int64.ofNat n)) val)).getLast?).map
      (fun p => recode p.2) = some val ↔ Kept n (some val) m := by
  obtain ⟨q, hq, hkey⟩ : ∃ q ∈ m, keyEqual q.1 (.int64 (Int64.ofNat n)) = true := by
    by_contra hno
    push Not at hno
    rw [Map.get, find?_eq_none.mpr fun p hp => hno p hp] at hget
    cases hget
  have hdenotes : denotes n q.1 = true := by
    rw [denotes_of_keyEqual hn hn hkey]
    exact decide_eq_true rfl
  obtain ⟨p, hp⟩ : ∃ p, (m.filter fun p => denotes n p.1).getLast? = some p :=
    Option.ne_none_iff_exists'.mp fun hnone =>
      ne_nil_of_mem (mem_filter.mpr ⟨hq, hdenotes⟩) (getLast?_eq_none_iff.mp hnone)
  rw [kept_iff_of_last hp, getLast?_map, hp, Option.map_some, Option.map_some, Option.some.injEq,
    recode_eq_string hval, Map.update, Option.some.injEq]
  by_cases hp' : keyEqual p.1 (.int64 (Int64.ofNat n)) = true <;> simp [hp']

theorem length_set_of_get_eq_some (hd : m.Distinct) (h : m.get (.int64 k) = some w) :
    (Map.set m (.int64 k) val).length = m.length := by
  rw [set_of_get_eq_some hd h, length_map]

theorem length_pop_of_get_eq_some (h : m.get (.int64 k) = some w) : (Map.pop m (.int64 k)).length = m.length - 1 := by
  rw [Map.get, Option.map_eq_some_iff] at h
  obtain ⟨p, hp, _⟩ := h
  have hkey := find?_some hp
  exact length_eraseP_of_mem (mem_of_find?_eq_some hp) hkey

theorem valid_normalizeNick (s : Bytes) (maxBytes : Int) : Text.valid (normalizeNick s maxBytes) = true := by
  rw [normalizeNick]
  split_ifs with _ hvalid
  · rfl
  · rfl
  · rfl
  · rfl
  · simpa using hvalid

end

/-! ### The nickname -/

/-- What `adoptNick` may do to an envelope. -/
inductive NickStep (m : Map) : Map → Prop
  | popped : NickStep m (Map.pop m kNick)
  | named {s : Bytes} (valid : Text.valid s = true) : NickStep m (Map.set m kNick (.text s))
  | unnamed (absent : m.get kNick = none) : NickStep m m

/-- The key under which an envelope holds the nickname takes one byte. -/
theorem length_encode_kNick (hkey : isIntLike key = true) (h : keyEqual key kNick = true) :
    (encode key).length = 1 := by
  have hseven : ∀ {n : Int}, Binary64.ofInt n = Binary64.ofInt (7 : Int64).toInt → n = 7 := Binary64.ofInt_inj (by decide)
  have hvalue := keyEqual_int.mp h
  cases key with
  | bool b => cases b <;> exact absurd (hseven (Option.some.inj hvalue)) (by decide)
  | int64 n =>
    rw [show n = 7 from Int64.toInt.inj (hseven (Option.some.inj hvalue))]
    rfl
  | uint64 n =>
    rw [show n = 7 from UInt64.toNat.inj (Int.ofNat.inj (hseven (Option.some.inj hvalue)))]
    rfl
  | _ => cases hkey <;> cases hvalue

theorem adoptNick_step (cfg : Config) (hub : Hub) (link : Link) (hd : m.Distinct)
    (hkeys : ∀ p ∈ m, isIntLike p.1 = true) (hnick : ∀ v, m.get kNick = some v → ∃ s, v = .text s) :
    NickStep m (adoptNick cfg hub link m).2 ∧
      (adoptNick cfg hub link m).2.length = pairsSent cfg (hub.sessions.nickOf link) m ∧
      (adoptNick cfg hub link m).2.size + nickSize (m.get kNick) =
        m.size + nickSize ((nickSent cfg (hub.sessions.nickOf link) m).map .text) := by
  rw [adoptNick, pairsSent, nickSent]
  cases hget : m.get kNick with
  | some v =>
    obtain ⟨s, rfl⟩ := hnick v hget
    simp only
    split_ifs with hempty
    · refine ⟨.popped, length_pop_of_get_eq_some hget, ?_⟩
      obtain ⟨k, hk, hkey, hsize⟩ := size_pop hget
      have hone := length_encode_kNick (hkeys _ hk) hkey
      rw [pairSize, hone] at hsize
      rw [← hsize, Nat.add_comm 1]
      rfl
    · refine ⟨.named (valid_normalizeNick _ _), length_set_of_get_eq_some hd hget, ?_⟩
      rcases size_set m kNick (.text (normalizeNick s cfg.maxNickBytes)) with ⟨w, hw, hsize⟩ | ⟨hnone, -⟩
      · cases hget.symm.trans hw
        simp only [nickSize, Option.elim_some, Option.map_some]
        omega
      · cases hget.symm.trans hnone
  | none =>
    cases hold : hub.sessions.nickOf link with
    | none => exact ⟨.unnamed hget, rfl, rfl⟩
    | some old =>
      simp only [Option.all_some, Option.bind_some, decide_eq_true_eq]
      split_ifs with hempty
      · exact ⟨.unnamed hget, rfl, rfl⟩
      · refine ⟨.named (valid_normalizeNick _ _), ?_, ?_⟩ <;> rw [kNick, set_of_get_eq_none hget]
        · exact length_append
        · simp only [Map.size, map_append, sum_append, nickSize, Option.elim_none, Option.map_some,
            Option.elim_some]
          exact congrArg _ (Nat.add_comm 1 _)

structure Tidy (m : Map) : Prop where
  distinct : m.Distinct
  entries : ∀ p ∈ m, (isIntLike p.1 = true ∧ Shallow 63 p.1) ∧ Shallow 63 p.2

theorem Accepted.tidy (h : Accepted env) : Tidy env :=
  ⟨h.distinct, fun p hp => ⟨⟨h.keys p hp, (h.shallow p hp).1⟩, (h.shallow p hp).2⟩⟩

theorem Tidy.set (h : Tidy m) (k : Int64) {val : Value} (hval : val.parts = []) : Tidy (Map.set m (.int64 k) val) := by
  have hkey : isIntLike (.int64 k) = true ∧ Shallow 63 (.int64 k) := ⟨rfl, shallow_of_parts_eq_nil rfl⟩
  exact ⟨h.distinct.set _ _,
    forall_set (K := fun k => isIntLike k = true ∧ Shallow 63 k) h.entries hkey (shallow_of_parts_eq_nil hval)⟩

theorem Tidy.pop (h : Tidy m) (k : Int64) : Tidy (Map.pop m (.int64 k)) :=
  ⟨h.distinct.pop, fun p hp => h.entries p (mem_of_mem_eraseP hp)⟩

namespace NickStep

variable {m sent : Map} (step : NickStep m sent)
include step

theorem tidy (h : Tidy m) : Tidy sent := by
  cases step with
  | popped => exact h.pop 7
  | named => exact h.set 7 rfl
  | unnamed => exact h

theorem get_eq (hd : m.Distinct) {n : Int64} (hne : keyEqual kNick (.int64 n) = false) :
    sent.get (.int64 n) = m.get (.int64 n) := by
  cases step with
  | popped => exact get_pop_of_ne hd hne
  | named => rw [get_set, hne, if_neg Bool.false_ne_true]
  | unnamed => rfl

theorem filter_eq (hd : m.Distinct) {n : Nat} (hn : n < 2 ^ 53) (hne : n ≠ 7) :
    sent.filter (fun p => denotes n p.1) = m.filter fun p => denotes n p.1 := by
  cases step with
  | popped => exact filter_pop_of_ne hd hn (by decide : 7 < 2 ^ 53) hne
  | named => exact filter_set_of_ne _ hd hn (by decide : 7 < 2 ^ 53) hne
  | unnamed => rfl

theorem portableBut_iff (hd : m.Distinct) {ks : List Int64} :
    (∀ p ∈ sent, PortableBut ks p) ↔ ∀ p ∈ m, PortableBut (7 :: ks) p := by
  cases step with
  | popped => exact forall_pop_portableBut hd
  | named valid => exact forall_set_portableBut hd (portable_iff.mpr ⟨valid, nofun⟩)
  | unnamed absent =>
    simp only [portableBut_cons]
    refine forall₂_congr fun p hp => ?_
    rw [keyEqual_of_get_eq_none absent hp]
    simp

end NickStep

/-! ### The two ways of forwarding -/

theorem portableBut_of_get {k : Int64} {ks : List Int64} (hd : m.Distinct)
    (h : ∀ v, m.get (.int64 k) = some v → Portable v) :
    (∀ p ∈ m, PortableBut (k :: ks) p) ↔ ∀ p ∈ m, PortableBut ks p := by
  simp only [portableBut_cons]
  refine forall₂_congr fun p hp => ⟨?_, .inr⟩
  rintro (hkey | hrest)
  · exact .inr (h p.2 (get_of_mem hd hp hkey))
  · exact hrest

theorem portable_bytes (b : Bytes) : Portable (.bytes b) := portable_iff.mpr ⟨trivial, nofun⟩

theorem portable_of_isIntLike (h : isIntLike v = true) : Portable v := by
  cases v with
  | bool | int64 | uint64 | bigUint => exact portable_iff.mpr ⟨trivial, nofun⟩
  | _ => cases h

def received (n : Nat) (sent : Map) : Option Value :=
  ((sent.filter fun p => denotes n p.1).getLast?).map fun p => recode p.2

structure Sent (cfg : Config) (nick : Option Bytes) (peerHash : Bytes) (env sent : Map) : Prop where
  tidy : Tidy sent
  length : sent.length = pairsSent cfg nick env
  values : (∀ p ∈ sent, PortableBut [] p) ↔ ∀ p ∈ env, PortableBut [5, 7] p
  src : received 4 sent = some (.bytes peerHash) ↔ Kept 4 (some (.bytes peerHash)) env
  room : received 5 sent = (roomOf cfg env).map .text ↔ Kept 5 ((roomOf cfg env).map .text) env
  size : sent.size + overwritten env = env.size + written cfg nick peerHash env

theorem size_set_of_get {w : Value} (h : m.get key = some w) (val : Value) :
    (m.set key val).size + (encode w).length = m.size + (encode val).length := by
  rcases size_set m key val with ⟨w', hw', hsize⟩ | ⟨hnone, -⟩
  · cases h.symm.trans hw'
    exact hsize
  · cases h.symm.trans hnone

theorem received_set {n : Nat} {val w : Value} (hn : n < 2 ^ 53) (hd : m.Distinct)
    (hval : (∃ b, val = .bytes b) ∨ ∃ s, val = .text s) (hget : m.get (.int64 (Int64.ofNat n)) = some w)
    (hfilter : m.filter (fun p => denotes n p.1) = env.filter fun p => denotes n p.1) :
    received n (Map.set m (.int64 (Int64.ofNat n)) val) = some val ↔ Kept n (some val) env := by
  rw [received, set_of_get_eq_some hd hget, filter_map_update, last_update_iff hn hval hget, Kept, Kept, hfilter]

theorem received_set_of_ne {n k : Nat} {val : Value} (hd : m.Distinct) (hn : n < 2 ^ 53) (hk : k < 2 ^ 53) (hne : n ≠ k) :
    received n (Map.set m (.int64 (Int64.ofNat k)) val) = received n m := by
  rw [received, filter_set_of_ne val hd hn hk hne, received]

section

variable {cfg : Config} {hub : Hub} {link : Link} {peerHash : Bytes} {env : Map}
variable {sent : Map}

variable {room : Bytes}

theorem valid_normRoom {nr : Bytes} (h : normRoom cfg room = .ok nr) : Text.valid nr = true := by
  rw [normRoom] at h
  split_ifs at h
  cases h
  exact valid_pythonLower _ _

theorem set_get {k : Int64} {w : Value} (hd : m.Distinct) (h : m.get (.int64 k) = some w) :
    Map.set m (.int64 k) w = m := by
  rw [set_of_get_eq_some hd h]
  conv_rhs => rw [← map_id m]
  refine map_congr_left fun p hp => ?_
  rw [Map.update, id]
  split_ifs with hkey
  · rw [← Option.some.inj ((get_of_mem hd hp hkey).symm.trans h)]
  · rfl

theorem Accepted.portableBut_src (h : Accepted env) {ks : List Int64} :
    (∀ p ∈ env, PortableBut (4 :: ks) p) ↔ ∀ p ∈ env, PortableBut ks p := by
  obtain ⟨b, hsrc⟩ := h.src
  refine portableBut_of_get h.distinct fun v hv => ?_
  cases hsrc.symm.trans hv
  exact portable_bytes b

/-- What `adoptNick` makes of an envelope into which the source and the room have been written. -/
theorem sent_adoptNick (hub : Hub) (h : Accepted env) (tidy : Tidy m) (hnick : m.get kNick = env.get kNick)
    (hlength : m.length = env.length) (hvalues : (∀ p ∈ m, PortableBut [7] p) ↔ ∀ p ∈ env, PortableBut [5, 7] p)
    (hsrc : received 4 m = some (.bytes peerHash) ↔ Kept 4 (some (.bytes peerHash)) env)
    (hroom : received 5 m = (roomOf cfg env).map .text ↔ Kept 5 ((roomOf cfg env).map .text) env)
    (hsize : m.size + valueSize (env.get kSrc) + valueSize (env.get kRoom) =
      env.size + (encode (.bytes peerHash)).length + valueSize ((roomOf cfg env).map .text)) :
    Sent cfg (hub.sessions.nickOf link) peerHash env (adoptNick cfg hub link m).2 := by
  obtain ⟨step, hpairs, hsent⟩ := adoptNick_step cfg hub link tidy.distinct (fun p hp => (tidy.entries p hp).1.1)
    fun v hv => h.nick v (hnick ▸ hv)
  refine ⟨step.tidy tidy, ?_, (step.portableBut_iff tidy.distinct).trans hvalues, ?_, ?_, ?_⟩
  · rw [hpairs, pairsSent, pairsSent, hnick, hlength]
  · rwa [received, step.filter_eq tidy.distinct (by decide) (by decide)]
  · rwa [received, step.filter_eq tidy.distinct (by decide) (by decide)]
  · rw [nickSent, hnick, ← nickSent] at hsent
    rw [overwritten, written]
    omega

theorem sent_room (hub : Hub) (h : Accepted env) {nr : Bytes} (hdirect : isDirect env = false)
    (hroom : env.get kRoom = some (.text room)) (hnorm : normRoom cfg room = .ok nr) :
    Sent cfg (hub.sessions.nickOf link) peerHash env
      (adoptNick cfg hub link ((env.set kSrc (.bytes peerHash)).set kRoom (.text nr))).2 := by
  obtain ⟨b, hsrc⟩ := h.src
  set m := env.set kSrc (.bytes peerHash) with hm
  have tidy : Tidy m := h.tidy.set 4 rfl
  have hroom' : m.get kRoom = some (.text room) := by
    rw [hm, kRoom, get_set]
    exact hroom
  have hroomOf : (roomOf cfg env).map Value.text = some (.text nr) := by
    rw [roomOf, hdirect, hroom]
    simp [roomPtrOf, hnorm, Except.toOption]
  refine sent_adoptNick hub h (tidy.set 5 rfl) ?_ ?_ ?_ ?_ ?_ ?_
  · rw [kNick, get_set, hm, get_set]
    rfl
  · rw [kRoom, length_set_of_get_eq_some tidy.distinct hroom']
    exact length_set_of_get_eq_some h.distinct hsrc
  · have hnr : Portable (.text nr) := portable_iff.mpr ⟨valid_normRoom hnorm, nofun⟩
    rw [kRoom, forall_set_portableBut tidy.distinct hnr, hm, kSrc, forall_set_portableBut h.distinct (portable_bytes _),
      h.portableBut_src]
  · have hother : received 4 (m.set kRoom (.text nr)) = received 4 m :=
      received_set_of_ne (k := 5) tidy.distinct (by decide) (by decide) (by decide)
    rw [hother]
    exact received_set (by decide : 4 < 2 ^ 53) h.distinct (.inl ⟨_, rfl⟩) hsrc rfl
  · rw [hroomOf]
    exact received_set (by decide : 5 < 2 ^ 53) tidy.distinct (.inr ⟨_, rfl⟩) hroom'
      (filter_set_of_ne (.bytes peerHash) h.distinct (by decide : 5 < 2 ^ 53) (by decide : 4 < 2 ^ 53) (by decide))
  · have hsize : m.size + _ = env.size + _ := size_set_of_get hsrc (.bytes peerHash)
    have hsize' := size_set_of_get hroom' (.text nr)
    rw [hsrc, hroom, hroomOf]
    simp only [valueSize, Option.elim_some]
    omega

theorem sent_direct (h : Accepted env) {dst : Bytes} (hdirect : isDirect env = true)
    (hroom : env.get kRoom = none) (hdst : env.get kDst = some (.bytes dst)) :
    Sent cfg (hub.sessions.nickOf link) peerHash env
      ((adoptNick cfg hub link (env.set kSrc (.bytes peerHash))).2.set kDst (.bytes dst)) := by
  obtain ⟨b, hsrc⟩ := h.src
  set m := env.set kSrc (.bytes peerHash) with hm
  have tidy : Tidy m := h.tidy.set 4 rfl
  have hnick : m.get kNick = env.get kNick := by
    rw [hm, kNick, get_set]
    rfl
  have hroomOf : roomOf cfg env = none := by rw [roomOf, hdirect, if_pos rfl]
  -- The destination is written as it was.
  have hsame : (adoptNick cfg hub link m).2.set kDst (.bytes dst) = (adoptNick cfg hub link m).2 := by
    obtain ⟨step, -, -⟩ := adoptNick_step cfg hub link tidy.distinct (fun p hp => (tidy.entries p hp).1.1)
      fun v hv => h.nick v (hnick ▸ hv)
    refine set_get (step.tidy tidy).distinct ?_
    rw [step.get_eq tidy.distinct rfl, hm, get_set]
    exact hdst
  rw [hsame]
  refine sent_adoptNick hub h tidy hnick (length_set_of_get_eq_some h.distinct hsrc) ?_ ?_ ?_ ?_
  · rw [hm, kSrc, forall_set_portableBut h.distinct (portable_bytes _), h.portableBut_src]
    exact (portableBut_of_get h.distinct fun v hv => by cases hroom.symm.trans hv).symm
  · exact received_set (by decide : 4 < 2 ^ 53) h.distinct (.inl ⟨_, rfl⟩) hsrc rfl
  · have hother : received 5 m = received 5 env :=
      received_set_of_ne (k := 4) h.distinct (by decide) (by decide) (by decide)
    rw [hroomOf, hother, received]
    refine ⟨fun hnone p hp => ?_, fun hkept => ?_⟩
    · rw [hp] at hnone
      cases hnone
    · cases hlast : (env.filter fun p => denotes 5 p.1).getLast? with
      | none => rfl
      | some p =>
        rcases hkept p hlast with hkey | hval
        · have hp := (mem_filter.mp (mem_of_getLast? hlast)).1
          cases hroom.symm.trans (get_of_mem h.distinct hp hkey)
        · cases hval
  · have hsize : m.size + _ = env.size + _ := size_set_of_get hsrc (.bytes peerHash)
    rw [hsrc, hroom, hroomOf]
    exact hsize

theorem Tidy.shallow (h : Tidy sent) : Shallow maxDecodeDepth (.map sent) := by
  intro c hc
  obtain ⟨p, hp, rfl | rfl⟩ := mem_parts_map.mp hc
  · exact (h.entries p hp).1.2
  · exact (h.entries p hp).2

theorem received_of_decode {got : Map} {n : Nat} (hn : n < 2 ^ 53) (hshallow : Shallow maxDecodeDepth (.map sent))
    (hsize : (encode (.map sent)).length < 2 ^ 63) (hdecode : decode (encode (.map sent)) = .ok (.map got)) :
    Portable (.map sent) ∧ got.get (.int64 (Int64.ofNat n)) = received n sent := by
  obtain ⟨hread, hreject⟩ := decode_encode hsize hshallow
  have hgood : Portable (.map sent) := by
    by_contra hbad
    obtain ⟨e, he⟩ := hreject hbad
    cases he.symm.trans hdecode
  cases (hread hgood).symm.trans hdecode
  exact ⟨hgood, get_recoded sent hn⟩

theorem authentic_iff {nick : Option Bytes} (h : Sent cfg nick peerHash env sent)
    (hsize : (encode (.map sent)).length < 2 ^ 63) :
    Authentic cfg peerHash env (encode (.map sent)) ↔ Untampered cfg nick peerHash env := by
  have hshallow := h.tidy.shallow
  have hportable : Portable (.map sent) ↔ pairsSent cfg nick env ≤ 2 ^ 28 ∧ ∀ p ∈ env, PortableBut [5, 7] p := by
    rw [portable_map, h.length, ← h.values]
    refine and_congr_right fun _ => forall₂_congr fun p hp => ?_
    simp [PortableBut, portable_of_isIntLike (h.tidy.entries p hp).1.1]
  constructor
  · rintro ⟨got, hdecode, hsrc, hroom⟩
    obtain ⟨hgood, hgetSrc⟩ := received_of_decode (n := 4) (by decide) hshallow hsize hdecode
    obtain ⟨-, hgetRoom⟩ := received_of_decode (n := 5) (by decide) hshallow hsize hdecode
    replace hsrc := hgetSrc.symm.trans hsrc
    replace hroom := hgetRoom.symm.trans hroom
    obtain ⟨hpairs, hvalues⟩ := hportable.mp hgood
    refine ⟨h.src.mp hsrc, h.room.mp hroom, fun p hp => ?_, hpairs⟩
    simpa [PortableBut, kRoom, kNick, or_assoc] using hvalues p hp
  · rintro ⟨hsrc, hroom, hvalues, hpairs⟩
    have hgood : Portable (.map sent) :=
      hportable.mpr ⟨hpairs, fun p hp => by simpa [PortableBut, kRoom, kNick, or_assoc] using hvalues p hp⟩
    refine ⟨_, (decode_encode hsize hshallow).1 hgood, ?_, ?_⟩
    · rw [show kSrc = .int64 (Int64.ofNat 4) from rfl, get_recoded sent (by decide)]
      exact h.src.mpr hsrc
    · rw [show kRoom = .int64 (Int64.ofNat 5) from rfl, get_recoded sent (by decide)]
      exact h.room.mpr hroom

end

/-! ### Routing -/

section

variable {cfg : Config} {hub hub' : Hub} {link : Link} {recipients : List Link} {payload : Bytes}
variable {now : Float} {remote : Option Bytes} {data : Bytes}

theorem emitError_ne_forward (text : String) (room : Option Bytes) :
    emitError cfg text room ≠ .forward recipients payload := by
  rw [emitError]
  split_ifs <;> exact nofun

theorem addressedRoom_cases (cfg : Config) (env : Map) (t : Int64) (recipients : List Link) (payload : Bytes) :
    (∃ room, env.get kRoom = some (.text room) ∧ addressedRoom cfg env t = .ok room) ∨
      ∃ outcome, addressedRoom cfg env t = .error outcome ∧ outcome ≠ .forward recipients payload := by
  have hmissing : (if t == tNotice then Outcome.ignored else emitError cfg "message requires room name" none) ≠
      .forward recipients payload := by
    split_ifs
    · exact nofun
    · exact emitError_ne_forward _ _
  rw [addressedRoom.eq_def]
  split
  next room hroom =>
    split
    · exact .inr ⟨_, rfl, hmissing⟩
    · split
      · split
        · exact .inr ⟨_, rfl, emitError_ne_forward _ _⟩
        · exact .inl ⟨room, hroom, rfl⟩
      · exact .inl ⟨room, hroom, rfl⟩
  · exact .inr ⟨_, rfl, hmissing⟩

theorem adoptNick_cases (cfg : Config) (hub : Hub) (link : Link) (env : Map) :
    (adoptNick cfg hub link env).1 = hub ∨ ∃ n ≠ [], (adoptNick cfg hub link env).1 = learnNick cfg hub link n := by
  unfold adoptNick
  split
  · dsimp only
    split_ifs with hn
    · exact .inl rfl
    · exact .inr ⟨_, hn, rfl⟩
  · split <;> exact .inl rfl
  · split <;> exact .inl rfl
  · exact .inl rfl

theorem rooms_adoptNick (env : Map) : (adoptNick cfg hub link env).1.rooms = hub.rooms := by
  rcases adoptNick_cases cfg hub link env with heq | ⟨n, -, heq⟩
  · rw [heq]
  · rw [heq, learnNick]
    split_ifs <;> rfl

theorem rooms_ensureRoomState {m : RoomManager} {founder : Option Bytes} :
    (m.ensureRoomState room founder).2.rooms = m.rooms := by
  unfold ensureRoomState
  split
  · split <;> rfl
  · rfl

theorem rooms_roomGate {peerHash : Bytes} : (roomGate hub link room peerHash).2.rooms = hub.rooms.rooms := by
  have houtside : (outsideGate hub link room).2.rooms = hub.rooms.rooms := by
    unfold outsideGate
    split_ifs
    · rfl
    · exact rooms_ensureRoomState
    · rfl
  have hmoderation : ∀ rooms : RoomManager, (moderationGate rooms room peerHash).2.rooms = rooms.rooms := by
    intro rooms
    unfold moderationGate isRoomBanned isRoomModerated isRoomVoiced
    dsimp only
    split_ifs <;> simp only [rooms_ensureRoomState]
  unfold roomGate
  split
  next heq => rwa [heq] at houtside
  next heq =>
    rw [heq] at houtside
    exact (hmoderation _).trans houtside

variable {peerHash : Bytes} {env : Map} {t : Int64}

theorem sent_of_handleDirectNotice (h : Accepted env) (hdirect : isDirect env = true)
    (hforward : (handleDirectNotice cfg hub link peerHash env).2 = .forward recipients payload) :
    ∃ sent, Sent cfg (hub.sessions.nickOf link) peerHash env sent ∧ payload = encode (.map sent) := by
  rw [handleDirectNotice.eq_def] at hforward
  cases hid : cfg.identityHash with
  | none => simp [hid] at hforward
  | some idHash =>
    cases hroom : env.get kRoom with
    | some v =>
      obtain ⟨s, rfl⟩ := h.room v hroom
      simp only [hid, hroom] at hforward
      exact absurd hforward (emitError_ne_forward _ _)
    | none =>
      cases hdst : env.get kDst with
      | none =>
        simp only [hid, hroom, hdst] at hforward
        exact absurd hforward (emitError_ne_forward _ _)
      | some v =>
        obtain ⟨dst, rfl⟩ := h.dst v hdst
        simp only [hid, hroom, hdst] at hforward
        split at hforward
        · cases hforward
        · split at hforward
          · exact absurd hforward (emitError_ne_forward _ _)
          · cases hforward
            exact ⟨_, sent_direct h hdirect hroom hdst, rfl⟩

theorem sent_of_handleMessage (h : Accepted env) (ht : (env.get kT).bind intValue = some t)
    (hforward : (handleMessage cfg hub link peerHash env t).2 = .forward recipients payload) :
    (∃ sent, Sent cfg (hub.sessions.nickOf link) peerHash env sent ∧ payload = encode (.map sent)) ∧
      ∀ room, roomOf cfg env = some room → recipients = hub.rooms.getRoomMembers room := by
  have hisDirect : isDirect env = (t == tNotice && !isNil (env.get kDst)) := by
    rw [isDirect, ht]
    rfl
  rw [handleMessage.eq_def] at hforward
  split at hforward
  · cases hforward
  split_ifs at hforward with hdirect
  · refine ⟨sent_of_handleDirectNotice h (hisDirect.trans hdirect) hforward, fun room hroom => ?_⟩
    rw [roomOf, if_pos (hisDirect.trans hdirect)] at hroom
    cases hroom
  have hdirect : isDirect env = false := hisDirect.trans (Bool.eq_false_of_not_eq_true hdirect)
  rcases addressedRoom_cases cfg env t recipients payload with ⟨room, hroom, hok⟩ | ⟨outcome, herr, hne⟩
  · rw [hok] at hforward
    simp only at hforward
    split at hforward
    · exact absurd hforward (emitError_ne_forward _ _)
    next nr hnorm =>
      split at hforward
      · exact absurd hforward (emitError_ne_forward _ _)
      next rooms hgate =>
        cases hforward
        refine ⟨⟨_, sent_room { hub with rooms := rooms } h hdirect hroom hnorm, rfl⟩, fun r hr => ?_⟩
        rw [roomOf, hdirect, hroom] at hr
        simp only [roomPtrOf, Option.bind_some, hnorm] at hr
        cases hr
        have hrooms : rooms.rooms = hub.rooms.rooms := by rw [← rooms_roomGate, hgate]
        rw [rooms_adoptNick, getRoomMembers, hrooms, getRoomMembers]
  · rw [herr] at hforward
    exact absurd hforward hne

theorem dispatch_eq_message {welcomed : Bool} {t : Option Int64} (h : dispatch welcomed t = some .message) :
    ∃ n, t = some n := by
  cases t with
  | none => cases welcomed <;> cases h
  | some n => exact ⟨n, rfl⟩

theorem getSession_of_refillAndTake {m m' : SessionManager} {n : Int} {cost : Float} {ok : Bool}
    (h : m.refillAndTake link now n cost = (ok, m')) (l : Link) : m'.getSession l = m.getSession l := by
  unfold refillAndTake at h
  split at h
  · cases h
    rfl
  · dsimp only at h
    split_ifs at h <;> cases h <;> rfl

theorem admission_eq_some {peerHash : Bytes} {ok : Bool}
    {sessions : SessionManager} (h : admission cfg hub link now remote = some (peerHash, ok, sessions)) :
    identifiedPeer hub link remote = some peerHash ∧ sessions.nickOf link = hub.sessions.nickOf link ∧
      ∀ l p, sessions.peerOf l = some p → hub.sessions.peerOf l = some p ∨ l = link ∧ peerHash = p := by
  unfold admission at h
  split at h
  next sess peer hs hpeer =>
    obtain ⟨rfl, htake⟩ := Prod.mk.inj (Option.some.inj h)
    have hget := getSession_of_refillAndTake htake
    refine ⟨hpeer, ?_, fun l p hl => ?_⟩
    · rw [nickOf, hget]
      split_ifs
      · rfl
      · simp [setPeer, nickOf, hs]
    · rw [peerOf, hget] at hl
      split_ifs at hl
      · exact .inl hl
      · by_cases hlink : l = link
        · exact .inr ⟨hlink, by simpa [setPeer, hlink, hs] using hl⟩
        · exact .inl (by simpa [setPeer, hlink, peerOf] using hl)
  · cases h

section

variable (hforward : (routePacket cfg hub link now remote data).2 = .forward recipients payload)
include hforward

theorem sent_of_routePacket :
    ∃ peerHash env sent, identifiedPeer hub link remote = some peerHash ∧ decodeEnvelope data = .ok env ∧
      Sent cfg (hub.sessions.nickOf link) peerHash env sent ∧ payload = encode (.map sent) ∧
      ∀ room, roomOf cfg env = some room → recipients = hub.rooms.getRoomMembers room := by
  rw [routePacket.eq_def] at hforward
  split at hforward
  · cases hforward
  · exact absurd hforward (emitError_ne_forward _ _)
  next peerHash sessions hadmit =>
    obtain ⟨hpeer, hnick, -⟩ := admission_eq_some hadmit
    simp only at hforward
    split at hforward
    · exact absurd hforward (emitError_ne_forward _ _)
    next env hdecode =>
      split at hforward
      · cases hforward
      next hdispatch =>
        obtain ⟨t, ht⟩ := dispatch_eq_message hdispatch
        rw [ht, Option.getD_some] at hforward
        obtain ⟨⟨sent, hsent, rfl⟩, hrecipients⟩ := sent_of_handleMessage (accepted_of_decodeEnvelope hdecode).1 ht hforward
        rw [hnick] at hsent
        exact ⟨peerHash, env, sent, hpeer, hdecode, hsent, rfl, hrecipients⟩
      · cases hforward

/-- What is forwarded is read as from the peer and for its room just when the envelope is untampered. -/
theorem forwarded_authentic_iff (hsize : payload.length < 2 ^ 63) :
    ∃ peerHash env, identifiedPeer hub link remote = some peerHash ∧ decodeEnvelope data = .ok env ∧
      (Authentic cfg peerHash env payload ↔ Untampered cfg (hub.sessions.nickOf link) peerHash env) := by
  obtain ⟨peerHash, env, sent, hpeer, hdecode, hsent, rfl, -⟩ := sent_of_routePacket hforward
  exact ⟨peerHash, env, hpeer, hdecode, authentic_iff hsent hsize⟩

/-- A forwarded payload fits just when what the hub writes, encoded anew, is not too much more. -/
theorem forwarded_fits_iff :
    ∃ peerHash env, identifiedPeer hub link remote = some peerHash ∧ decodeEnvelope data = .ok env ∧
      (payload.length ≤ packetMDU ↔
        (appendHead 5 (pairsSent cfg (hub.sessions.nickOf link) env)).length + env.size +
          written cfg (hub.sessions.nickOf link) peerHash env ≤ packetMDU + overwritten env) := by
  obtain ⟨peerHash, env, sent, hpeer, hdecode, hsent, rfl, -⟩ := sent_of_routePacket hforward
  refine ⟨peerHash, env, hpeer, hdecode, ?_⟩
  have hsize := hsent.size
  rw [length_encode_map, hsent.length]
  omega

end

end

/-! ### A hub with two peers -/

def sampleConfig : Config where
  unicode := ⟨Char.toLower, Char.isAlpha, fun _ => false⟩
  identityHash := some (List.replicate 16 9)
  enablePrivateCommands := true
  maxNickBytes := 32
  maxRoomNameBytes := 64
  maxMsgBodyBytes := 350
  rateLimitMsgsPerMinute := 240

def alice : Bytes := List.replicate 16 1

def bob : Bytes := List.replicate 16 2

def sampleSession (peerHash : Bytes) : Session := ⟨true, [Text.ascii "room"], some peerHash, none⟩

def sampleHub : Hub where
  sessions :=
    { sessions := (AList.insert 1 (sampleSession alice) ∅).insert 2 (sampleSession bob)
      rate := AList.insert 1 ⟨60, 0⟩ ∅
      indexByHash := ∅
      indexByNick := ∅ }
  rooms := ⟨AList.insert (Text.ascii "room") [1, 2] ∅, AList.insert (Text.ascii "room") {} ∅, ∅, []⟩

def sampleMessage (head : UInt8) (room rest : Bytes) : Bytes :=
  [head, 0, 1, 1, 20, 2, 0x48, 1, 2, 3, 4, 5, 6, 7, 8, 3, 0, 4, 0x50] ++ alice ++ [5] ++ room ++ rest ++
    [6, 0x62] ++ Text.ascii "hi"

def plainData : Bytes := sampleMessage 0xa7 (0x65 :: Text.ascii " Room") []

def plainPayload : Bytes := sampleMessage 0xa7 (0x64 :: Text.ascii "room") []

set_option maxRecDepth 10000 in
theorem plainData_forwarded :
    (routePacket sampleConfig sampleHub 1 0.5 none plainData).2 = .forward [1, 2] plainPayload := rfl

theorem plain_message_authentic :
    (routePacket sampleConfig sampleHub 1 0.5 none plainData).2 = .forward [1, 2] plainPayload ∧
      plainPayload.length < 2 ^ 63 ∧
      ∃ peerHash env, identifiedPeer sampleHub 1 none = some peerHash ∧ decodeEnvelope plainData = .ok env ∧
        (Authentic sampleConfig peerHash env plainPayload ↔
          Untampered sampleConfig (sampleHub.sessions.nickOf 1) peerHash env) :=
  ⟨plainData_forwarded, by decide, forwarded_authentic_iff plainData_forwarded (by decide)⟩

theorem plain_message_fits :
    (routePacket sampleConfig sampleHub 1 0.5 none plainData).2 = .forward [1, 2] plainPayload ∧
      ∃ peerHash env, identifiedPeer sampleHub 1 none = some peerHash ∧ decodeEnvelope plainData = .ok env ∧
        (plainPayload.length ≤ packetMDU ↔
          (appendHead 5 (pairsSent sampleConfig (sampleHub.sessions.nickOf 1) env)).length + env.size +
            written sampleConfig (sampleHub.sessions.nickOf 1) peerHash env ≤ packetMDU + overwritten env) :=
  ⟨plainData_forwarded, forwarded_fits_iff plainData_forwarded⟩

/-- A notice to the room with a text of 402 bytes, and the source. -/
def longNotice (source : Bytes) : Bytes :=
  [0xa7, 0, 1, 1, 21, 2, 0x48, 1, 2, 3, 4, 5, 6, 7, 8, 3, 0, 4] ++ source ++ [5, 0x64] ++ Text.ascii "room" ++
    [6, 0x79, 1, 0x92] ++ List.replicate 402 97

set_option maxRecDepth 20000 in
/-- The sender leaves the source empty. The packet is full, and with the source that the hub writes it is too large. -/
theorem source_outgrows_packet : (longNotice [0x40]).length = packetMDU ∧
      (routePacket sampleConfig sampleHub 1 0.5 none (longNotice [0x40])).2 =
        .forward [1, 2] (longNotice (0x50 :: alice)) ∧
      (longNotice (0x50 :: alice)).length = packetMDU + 16 :=
  ⟨rfl, rfl, rfl⟩

def forgedData : Bytes := sampleMessage 0xa8 (0x65 :: Text.ascii " Room") ([0xc2, 0x41, 4, 0x50] ++ bob)

def forgedPayload : Bytes := sampleMessage 0xa8 (0x64 :: Text.ascii "room") ([4, 0x50] ++ bob)

set_option maxRecDepth 10000 in
theorem bignum_source_forged : identifiedPeer sampleHub 1 none = some alice ∧
      (routePacket sampleConfig sampleHub 1 0.5 none forgedData).2 = .forward [1, 2] forgedPayload ∧
      ∃ got : Map, decode forgedPayload = .ok (.map got) ∧ got.get kSrc = some (.bytes bob) ∧ bob ≠ alice :=
  ⟨rfl, rfl, _, rfl, rfl, by decide⟩

end Reticulum.Rrc
