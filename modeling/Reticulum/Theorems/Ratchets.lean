import Reticulum.Ratchets
import Reticulum.Transitions

/-! What is encrypted to an announced ratchet can be decrypted as long as the ratchets are not read from a file that
misses it. -/

namespace Reticulum

open Transitions List Option

theorem mem_take_of_sublist {α : Type} {l l' : List α} (h : l.Sublist l') (hnodup : l'.Nodup) {a : α} (ha : a ∈ l)
    {n : Nat} (hn : a ∈ l'.take n) : a ∈ l.take n := by
  induction h generalizing n with
  | slnil => cases ha
  | cons b h ih =>
    cases n with
    | zero => cases hn
    | succ n =>
      obtain ⟨hb, hnodup⟩ := nodup_cons.mp hnodup
      rcases mem_cons.mp hn with rfl | hn
      · exact absurd (h.subset ha) hb
      · exact take_subset_take_left _ n.le_succ (ih hnodup ha hn)
  | cons_cons b h ih =>
    cases n with
    | zero => cases hn
    | succ n =>
      rcases mem_cons.mp hn with rfl | hn
      · exact mem_cons_self
      · rcases mem_cons.mp ha with rfl | ha
        · exact mem_cons_self
        · exact mem_cons_of_mem _ (ih (nodup_cons.mp hnodup).2 ha hn)

variable {κ : Type} {conf : RatchetConfig κ} {d d' : RatchetStore κ}

namespace RatchetConfig

structure Inverts (conf : RatchetConfig κ) : Prop where
  long : ∀ key seed plaintext, 32 ≤ (conf.crypto.encrypt (conf.crypto.publicBytes key) seed plaintext).length
  opens : ∀ key seed plaintext,
    conf.trial (conf.crypto.encrypt (conf.crypto.publicBytes key) seed plaintext) key = some plaintext
  only : ∀ key seed plaintext other, other ≠ key →
    conf.trial (conf.crypto.encrypt (conf.crypto.publicBytes key) seed plaintext) other = none

variable {key : κ} {seed plaintext : Bytes} {ratchets : List κ}

theorem Inverts.identityDecrypt_of_mem (h : conf.Inverts) (hmem : key ∈ ratchets) :
    conf.identityDecrypt (conf.crypto.encrypt (conf.crypto.publicBytes key) seed plaintext) ratchets =
      some plaintext := by
  have hfind : ratchets.findSome? (conf.trial (conf.crypto.encrypt (conf.crypto.publicBytes key) seed plaintext)) =
      some plaintext := by
    induction ratchets with
    | nil => cases hmem
    | cons other ratchets ih =>
      rw [findSome?_cons]
      by_cases hother : other = key
      · rw [hother, h.opens]
      · rw [h.only key seed plaintext other hother]
        exact ih ((mem_cons.mp hmem).resolve_left (Ne.symm hother))
  rw [identityDecrypt, if_neg (not_lt.mpr (h.long key seed plaintext)), hfind]

theorem Inverts.identityDecrypt_of_not_mem (h : conf.Inverts) (hmem : key ∉ ratchets) (hown : conf.prv ≠ some key) :
    conf.identityDecrypt (conf.crypto.encrypt (conf.crypto.publicBytes key) seed plaintext) ratchets = none := by
  have hfind : ratchets.findSome? (conf.trial (conf.crypto.encrypt (conf.crypto.publicBytes key) seed plaintext)) =
      none := by
    rw [findSome?_eq_none_iff]
    rintro other hother
    exact h.only key seed plaintext other (fun heq => hmem (heq ▸ hother))
  rw [identityDecrypt, if_neg (not_lt.mpr (h.long key seed plaintext)), hfind]
  dsimp only
  split
  · rfl
  · rw [bind_eq_none_iff]
    intro own hprv
    exact h.only key seed plaintext own (fun heq => hown (heq ▸ hprv))

end RatchetConfig

namespace RatchetStore

/-! ### Sound stores -/

structure Recent (conf : RatchetConfig κ) (d : RatchetStore κ) (key : κ) : Prop where
  announced : key ∈ d.announced
  recent : key ∈ d.generated.take conf.retainedRatchets

/-- The ratchets are some of the generated ones, in their order, and the recent ones are in memory. -/
structure Sound (conf : RatchetConfig κ) (d : RatchetStore κ) : Prop where
  nodup : d.generated.Nodup
  own : ∀ key ∈ d.generated, conf.prv ≠ some key
  inMemory : d.inMemory.Sublist d.generated
  file : (d.file.getD []).Sublist d.generated
  covers : ∀ key, Recent conf d key → key ∈ d.inMemory
  enabled : d.ratchets.isSome = true → d.ratchetsPath = true

def Decryptable (conf : RatchetConfig κ) (d : RatchetStore κ) : Prop :=
  ∀ key, Recent conf d key → ∀ seed plaintext written,
    (d.decrypt conf (conf.crypto.encrypt (conf.crypto.publicBytes key) seed plaintext) written).2 = some plaintext

def Saved (conf : RatchetConfig κ) (d : RatchetStore κ) : Prop := ∀ key, Recent conf d key → key ∈ d.file.getD []

theorem Sound.decryptable (hd : Sound conf d) (h : conf.Inverts) : Decryptable conf d := by
  intro key hkey seed plaintext written
  have hmem := hd.covers key hkey
  rw [decrypt, if_neg (ne_nil_of_mem hmem), h.identityDecrypt_of_mem hmem]

structure SameHistory (d d' : RatchetStore κ) : Prop where
  generated : d'.generated = d.generated
  announced : d'.announced = d.announced

theorem SameHistory.recent {key : κ} (h : SameHistory d d') : Recent conf d' key ↔ Recent conf d key := by
  constructor
  · rintro ⟨hannounced, hrecent⟩
    exact ⟨h.announced ▸ hannounced, h.generated ▸ hrecent⟩
  · rintro ⟨hannounced, hrecent⟩
    exact ⟨h.announced ▸ hannounced, h.generated ▸ hrecent⟩

/-- The store has read its file again. -/
structure Reloaded (d d' : RatchetStore κ) : Prop extends SameHistory d d' where
  inMemory : d'.inMemory = d.file.getD []
  file : d'.file.getD [] = d.file.getD []

theorem reloaded (d : RatchetStore κ) (written : Bool) : Reloaded d (d.reloadRatchets written) ∧
    (d.reloadRatchets written).ratchetsPath = d.ratchetsPath := by
  rw [reloadRatchets]
  split
  · rename_i hfile
    rw [persistRatchets]
    split_ifs <;> refine ⟨⟨⟨rfl, rfl⟩, ?_, ?_⟩, rfl⟩ <;> simp [inMemory, hfile]
  · rename_i hfile
    exact ⟨⟨⟨rfl, rfl⟩, by simp [inMemory, hfile], rfl⟩, rfl⟩

/-! ### Steps -/

section

variable (hd : Sound conf d)
include hd

theorem Sound.reloadRatchets (hpath : d.ratchetsPath = true) (hsaved : Saved conf d)
    (written : Bool) : Sound conf (d.reloadRatchets written) := by
  obtain ⟨hreload, hsamePath⟩ := reloaded d written
  constructor
  case nodup => exact hreload.generated ▸ hd.nodup
  case own => exact hreload.generated ▸ hd.own
  case inMemory =>
    rw [hreload.inMemory, hreload.generated]
    exact hd.file
  case file =>
    rw [hreload.file, hreload.generated]
    exact hd.file
  case covers =>
    intro key hkey
    rw [hreload.inMemory]
    exact hsaved key (hreload.recent.mp hkey)
  case enabled => exact fun _ => hsamePath.trans hpath

theorem Sound.persistRatchets (written : Bool) : Sound conf (d.persistRatchets written).1 := by
  rw [RatchetStore.persistRatchets]
  split
  · exact hd
  · split
    · have hsame : SameHistory d { d with file := some d.inMemory } := ⟨rfl, rfl⟩
      exact ⟨hd.nodup, hd.own, hd.inMemory, hd.inMemory, fun key hkey => hd.covers key (hsame.recent.mp hkey), hd.enabled⟩
    · exact hd

theorem Sound.prepend {key : κ} (hnew : key ∉ d.generated) (hown : conf.prv ≠ some key)
    (henabled : d.ratchets.isSome = true) (now : Int) : Sound conf (d.prepend conf now key) := by
  constructor
  case nodup => exact nodup_cons.mpr ⟨hnew, hd.nodup⟩
  case own => exact forall_mem_cons.mpr ⟨hown, hd.own⟩
  case inMemory => exact (take_sublist _ _).trans (hd.inMemory.cons_cons key)
  case file => exact hd.file.cons key
  case covers =>
    rintro k ⟨hannounced, hrecent⟩
    show k ∈ (key :: d.inMemory).take conf.retainedRatchets
    have hrecent : k ∈ (key :: d.generated).take conf.retainedRatchets := hrecent
    generalize hretained : conf.retainedRatchets = n at hrecent ⊢
    cases n with
    | zero => cases hrecent
    | succ n =>
      rcases mem_cons.mp hrecent with rfl | hrecent
      · exact mem_cons_self
      · -- An older ratchet has moved back by one place, in memory no further than among all.
        have hle : n ≤ conf.retainedRatchets := by rw [hretained]; exact n.le_succ
        have hmem : k ∈ d.inMemory := hd.covers k ⟨hannounced, take_subset_take_left _ hle hrecent⟩
        exact mem_cons_of_mem _ (mem_take_of_sublist hd.inMemory hd.nodup hmem hrecent)
  case enabled => exact fun _ => hd.enabled henabled

omit hd in
theorem isSome_of_not_isNone {rs : Option (List κ)} (h : ¬rs.isNone = true) : rs.isSome = true := by
  cases rs with
  | none => exact absurd rfl h
  | some rs => rfl

theorem Sound.ratchetsPath (hne : d.inMemory ≠ []) : d.ratchetsPath = true := by
  refine hd.enabled (isSome_of_not_isNone fun hnone => hne ?_)
  rw [RatchetStore.inMemory, isNone_iff_eq_none.mp hnone]
  rfl

theorem Sound.decrypt_eq {ciphertext : Bytes} (hne : d.inMemory ≠ [])
    (hfails : conf.identityDecrypt ciphertext d.inMemory = none) (written : Bool) : d.decrypt conf ciphertext written =
      (d.reloadRatchets written, conf.identityDecrypt ciphertext (d.file.getD [])) := by
  rw [decrypt, if_neg hne, hfails]
  dsimp only
  rw [if_pos (hd.ratchetsPath hne), (reloaded d written).1.inMemory]

end

theorem saved_of_decryptable (h : conf.Inverts) (hd : Sound conf d) (hreload : Reloaded d d')
    (hdecryptable : Decryptable conf d') : Saved conf d := by
  intro key hkey
  have hdecrypt := hdecryptable key (hreload.recent.mpr hkey) [] [] true
  by_contra hlost
  have hfails : ∀ ratchets, key ∉ ratchets →
      conf.identityDecrypt (conf.crypto.encrypt (conf.crypto.publicBytes key) [] []) ratchets = none :=
    fun ratchets hnot => h.identityDecrypt_of_not_mem hnot (hd.own key (mem_of_mem_take hkey.recent))
  have hnone : (d'.decrypt conf (conf.crypto.encrypt (conf.crypto.publicBytes key) [] []) true).2 = none := by
    rw [decrypt]
    split
    · exact hfails [] not_mem_nil
    · rw [hfails d'.inMemory (hreload.inMemory ▸ hlost)]
      dsimp only
      split
      · dsimp only
        rw [(reloaded d' true).1.inMemory, hreload.file]
        exact hfails _ hlost
      · rfl
  rw [hnone] at hdecrypt
  cases hdecrypt

theorem sound_empty (conf : RatchetConfig κ) : Sound conf {} where
  nodup := nodup_nil
  own _ hkey := nomatch hkey
  inMemory := nil_sublist _
  file := nil_sublist _
  covers _ hkey := nomatch hkey.announced
  enabled h := nomatch h

variable [DecidableEq κ] {r : Rotation κ}

theorem fresh_some {key : κ} (hfresh : fresh conf d r = true) (hkey : r.newRatchet = some key) :
    key ∉ d.generated ∧ conf.prv ≠ some key := by
  rw [fresh, hkey] at hfresh
  obtain ⟨hnew, hown⟩ := (Bool.and_eq_true _ _).mp hfresh
  exact ⟨of_decide_eq_true hnew, of_decide_eq_true hown⟩

theorem Sound.rotateRatchets (hd : Sound conf d) (hfresh : fresh conf d r = true) :
    Sound conf (d.rotateRatchets conf r).1 := by
  rw [RatchetStore.rotateRatchets]
  split
  · exact hd
  · rename_i henabled
    split
    · exact hd
    · split
      · exact hd
      · rename_i key hkey
        obtain ⟨hnew, hown⟩ := fresh_some hfresh hkey
        exact (hd.prepend hnew hown (isSome_of_not_isNone henabled) r.now).persistRatchets r.written

theorem Sound.buildAnnouncePacket (hd : Sound conf d) (hfresh : fresh conf d r = true) (signed : Bool) :
    Sound conf (d.buildAnnouncePacket conf r signed) := by
  rw [RatchetStore.buildAnnouncePacket]
  split
  · exact hd
  · have hd := hd.rotateRatchets hfresh
    generalize d.rotateRatchets conf r = result at hd
    dsimp only
    split
    · refine ⟨hd.nodup, hd.own, hd.inMemory, hd.file, ?_, hd.enabled⟩
      rintro key ⟨hannounced, hrecent⟩
      rcases mem_append.mp hannounced with hhead | hannounced
      · exact mem_of_mem_head? (mem_toList.mp hhead)
      · exact hd.covers key ⟨hannounced, hrecent⟩
    · exact hd

def Careful (conf : RatchetConfig κ) (d : RatchetStore κ) : Event κ → Prop
  | .decrypt ciphertext _ => d.inMemory ≠ [] → conf.identityDecrypt ciphertext d.inMemory = none → Saved conf d
  | .enable _ => Saved conf d
  | .rotate _ | .announce _ _ => True

theorem Sound.step {event : Event κ} (hd : Sound conf d) (hstep : step conf d event = some d')
    (hcareful : Careful conf d event) : Sound conf d' := by
  cases event with
  | rotate r =>
    obtain ⟨hfresh, h⟩ := ite_none_right_eq_some.mp hstep
    cases h
    exact hd.rotateRatchets hfresh
  | announce r signed =>
    obtain ⟨hfresh, h⟩ := ite_none_right_eq_some.mp hstep
    cases h
    exact hd.buildAnnouncePacket hfresh signed
  | decrypt ciphertext written =>
    cases hstep
    by_cases hne : d.inMemory = []
    · rw [decrypt, if_pos hne]
      exact hd
    · cases hdecrypt : conf.identityDecrypt ciphertext d.inMemory with
      | some plaintext =>
        rw [decrypt, if_neg hne, hdecrypt]
        exact hd
      | none =>
        rw [hd.decrypt_eq hne hdecrypt]
        exact hd.reloadRatchets (hd.ratchetsPath hne) (hcareful hne hdecrypt) written
  | enable written =>
    cases hstep
    have henabled : Sound conf { d with ratchetsPath := true, latestRatchetTime := none } :=
      ⟨hd.nodup, hd.own, hd.inMemory, hd.file, fun key hkey => hd.covers key ⟨hkey.announced, hkey.recent⟩,
        fun _ => rfl⟩
    exact henabled.reloadRatchets rfl (fun key hkey => hcareful key ⟨hkey.announced, hkey.recent⟩) written

theorem careful_of_decryptable {event : Event κ} (h : conf.Inverts) (hd : Sound conf d)
    (hstep : step conf d event = some d') (hdecryptable : Decryptable conf d') : Careful conf d event := by
  cases event with
  | rotate r | announce r signed => trivial
  | decrypt ciphertext written =>
    intro hne hfails
    cases hstep
    rw [hd.decrypt_eq hne hfails] at hdecryptable
    exact saved_of_decryptable h hd (reloaded d written).1 hdecryptable
  | enable written =>
    cases hstep
    have hreload := (reloaded { d with ratchetsPath := true, latestRatchetTime := none } written).1
    exact saved_of_decryptable h hd { hreload with } hdecryptable

/-- What is encrypted to an announced ratchet opens just when no file that misses a ratchet is read. -/
theorem decryptable_iff_careful (conf : RatchetConfig κ) (h : conf.Inverts) (events : List (Event κ))
    {d : RatchetStore κ} (hrun : run (step conf) {} events = some d) :
    (∀ as bs d', events = as ++ bs → run (step conf) {} as = some d' → Decryptable conf d') ↔
      Keeps (step conf) (Careful conf) {} events :=
  keeps_iff_good (Sound conf) (fun _ hd => hd.decryptable h) (fun _ _ _ hd hstep => hd.step hstep)
    (fun _ _ _ hd hstep => careful_of_decryptable h hd hstep) (sound_empty conf) hrun

instance (conf : RatchetConfig κ) (d : RatchetStore κ) : Decidable (Saved conf d) :=
  decidable_of_iff (∀ key ∈ d.announced, key ∈ d.generated.take conf.retainedRatchets → key ∈ d.file.getD [])
    ⟨fun h key hkey => h key hkey.announced hkey.recent, fun h key hannounced hrecent => h key ⟨hannounced, hrecent⟩⟩

instance (conf : RatchetConfig κ) (d : RatchetStore κ) : ∀ event, Decidable (Careful conf d event)
  | .decrypt _ _ => inferInstanceAs (Decidable (_ → _))
  | .enable _ => inferInstanceAs (Decidable (Saved conf d))
  | .rotate _ | .announce _ _ => isTrue trivial

namespace Sample

/-- A key shows itself in its ciphertexts, and only it opens them. -/
def openCrypto : RatchetCrypto UInt8 where
  publicBytes key := [key]
  exchange key pub := if pub = List.replicate 32 key then some [key] else none
  tokenDecrypt _ token := some token
  encrypt pub _ plaintext := List.replicate 32 (pub.headD 0) ++ plaintext

def twoRatchets : RatchetConfig UInt8 where
  crypto := openCrypto
  identityHash := List.replicate 16 1
  prv := some 0
  retainedRatchets := 2

theorem trial_twoRatchets (key other : UInt8) (seed plaintext : Bytes) :
    twoRatchets.trial (openCrypto.encrypt (openCrypto.publicBytes key) seed plaintext) other =
      if other = key then some plaintext else none := by
  have htake : (openCrypto.encrypt (openCrypto.publicBytes key) seed plaintext).take 32 = replicate 32 key := rfl
  have hdrop : (openCrypto.encrypt (openCrypto.publicBytes key) seed plaintext).drop 32 = plaintext := rfl
  rw [RatchetConfig.trial, htake, hdrop]
  by_cases hkey : other = key
  · have hexchange : twoRatchets.crypto.exchange key (replicate 32 key) = some [key] := if_pos rfl
    rw [if_pos hkey, hkey, hexchange]
    rfl
  · have hne : replicate 32 key ≠ replicate 32 other := fun h => hkey (cons.inj h).1.symm
    rw [if_neg hkey]
    exact congrArg (Option.bind · _) (if_neg hne)

theorem inverts_twoRatchets : twoRatchets.Inverts where
  long _ _ _ := by simp [twoRatchets, openCrypto]
  opens key seed plaintext := (trial_twoRatchets key key seed plaintext).trans (if_pos rfl)
  only key seed plaintext other hother := (trial_twoRatchets key other seed plaintext).trans (if_neg hother)

def garbage : Bytes := List.replicate 40 255

/-- The file can be written for the first ratchet and cannot for the second, which is not announced. -/
def announcedSaved : List (Event UInt8) :=
  [.enable true, .announce ⟨0, some 1, true⟩ true, .decrypt garbage true, .announce ⟨2000, some 2, false⟩ true,
    .decrypt garbage true, .enable true]

/-- The file cannot be written for the first ratchet; the announce is tried again before the next rotation is due. -/
def announcedUnsaved : List (Event UInt8) :=
  [.enable true, .announce ⟨0, some 1, false⟩ true, .announce ⟨1, none, true⟩ true, .decrypt garbage true]

def runs (events : List (Event UInt8)) : Option (List UInt8 × Option Bytes) :=
  (run (step twoRatchets) {} events).map fun d =>
    (d.announced, (d.decrypt twoRatchets (openCrypto.encrypt (openCrypto.publicBytes 1) [] [9]) true).2)

end Sample

theorem announcedSaved_decryptable : ∃ d, run (step Sample.twoRatchets) {} Sample.announcedSaved = some d ∧
    Decryptable Sample.twoRatchets d := by
  obtain ⟨d, hrun⟩ : ∃ d, run (step Sample.twoRatchets) {} Sample.announcedSaved = some d :=
    Option.isSome_iff_exists.mp (by decide +kernel)
  have hall := (decryptable_iff_careful Sample.twoRatchets Sample.inverts_twoRatchets _ hrun).mpr (by decide +kernel)
  exact ⟨d, hrun, hall Sample.announcedSaved [] d (List.append_nil _).symm hrun⟩

/-- The first ratchet is announced, and lost when the file is read. -/
theorem announcedUnsaved_lost : Sample.runs (Sample.announcedUnsaved.take 3) = some ([1], some [9]) ∧
      Sample.runs Sample.announcedUnsaved = some ([1], none) := by
  decide +kernel

end RatchetStore
end Reticulum
