import Reticulum.Announce

/-! What an accepted announce says about the announce that was signed. -/

namespace Reticulum.Announce

open List Option

structure Fields.Sized (f : Fields) (contextFlag : Bool) : Prop where
  publicKey : f.publicKey.length = keySize
  nameHash : f.nameHash.length = nameHashLength
  randomHash : f.randomHash.length = randomHashLength
  ratchet : f.ratchet.length = if contextFlag then ratchetSize else 0
  signature : f.signature.length = signatureLength

def Fields.data (f : Fields) : Bytes :=
  f.publicKey ++ (f.nameHash ++ (f.randomHash ++ (f.ratchet ++ (f.signature ++ f.appData))))

variable {contextFlag : Bool} {data : Bytes} {f : Fields}

theorem fields_eq_some (h : fields contextFlag data = some f) : data = f.data ∧ f.Sized contextFlag := by
  obtain ⟨hlong, h⟩ := ite_none_left_eq_some.mp h
  cases h
  constructor
  · simp only [Fields.data, take_append_drop]
  · constructor <;> simp only [length_take, length_drop] <;> omega

theorem fields_data (h : f.Sized contextFlag) : fields contextFlag f.data = some f := by
  obtain ⟨hkey, hname, hrandom, hratchet, hsignature⟩ := h
  have hlong : ¬f.data.length < keySize + nameHashLength + randomHashLength + signatureLength +
      if contextFlag then ratchetSize else 0 := by
    simp only [Fields.data, length_append]
    omega
  simp only [fields, if_neg hlong, some.injEq]
  simp only [Fields.data, ← hkey, ← hname, ← hrandom, ← hratchet, ← hsignature, take_left, drop_left]

structure Genuine where
  call : Call
  ratchet : Bytes
  ratchet_eq : call.ratchet = some ratchet

/-- The scheme is unforgeable: whoever shows a signature of data with the fields of an announce, which starts with a
    destination hash and the public key itself, has it from an announce that the identity built. What `Link.Identify`
    signs ends after the public key. -/
def Unforgeable (keys : Keys) (built : Genuine → Prop) : Prop :=
  ∀ publicKey signature destinationHash rest, destinationHash.length = truncatedHashLength →
    publicKey.length = keySize → nameHashLength + randomHashLength ≤ rest.length →
    keys.verify publicKey signature (destinationHash ++ (publicKey ++ rest)) = true →
    ∃ g, built g ∧ g.call.destination.publicKey = publicKey ∧
      g.call.signedData g.ratchet = destinationHash ++ (publicKey ++ rest)

@[simp] theorem length_randomHash (c : Call) : c.randomHash.length = randomHashLength := by
  simp [Call.randomHash, randomHashLength]

theorem length_rotateRatchets {c : Call} {ratchets rotated : List Bytes} (h : c.rotateRatchets ratchets = some rotated)
    (hr : ∀ r ∈ ratchets, r.length = ratchetSize) : ∀ r ∈ rotated, r.length = ratchetSize := by
  rw [Call.rotateRatchets] at h
  split at h
  · split at h
    · cases h
    · rename_i key _
      obtain ⟨-, h⟩ := ite_none_right_eq_some.mp h
      cases h
      intro r hmem
      rcases mem_cons.mp (mem_of_mem_take hmem) with rfl | hmem
      · exact key.2
      · exact hr r hmem
  · cases h
    exact hr

theorem Genuine.length_ratchet (g : Genuine) : g.ratchet.length = if g.ratchet ≠ [] then ratchetSize else 0 := by
  split
  · rename_i hne
    have hr := g.ratchet_eq
    rw [Call.ratchet] at hr
    split at hr
    · exact absurd (some.inj hr).symm hne
    · rename_i ratchets hratchets
      obtain ⟨rotated, hrotated, hhead⟩ := map_eq_some_iff.mp hr
      have hall := length_rotateRatchets hrotated (g.call.destination.length_ratchets ratchets hratchets)
      cases rotated with
      | nil => exact absurd hhead.symm hne
      | cons r rest =>
        rw [← hhead]
        exact hall r mem_cons_self
  · rename_i hne
    rw [not_not.mp hne]
    rfl

theorem signedData_inj {g : Genuine} {destinationHash : Bytes} (hs : f.Sized contextFlag)
    (hd : destinationHash.length = truncatedHashLength)
    (h : g.call.signedData g.ratchet = f.signedData destinationHash) :
    g.call.destination.hash = destinationHash ∧ g.call.destination.nameHash = f.nameHash ∧
      g.call.randomHash = f.randomHash ∧ g.ratchet ++ g.call.effectiveAppData = f.ratchet ++ f.appData := by
  simp only [Call.signedData, Fields.signedData, append_assoc] at h
  obtain ⟨hhash, h⟩ := append_inj h ((length_truncatedHash _).trans hd.symm)
  obtain ⟨-, h⟩ := append_inj h (g.call.destination.length_publicKey.trans hs.publicKey.symm)
  obtain ⟨hname, h⟩ := append_inj h (g.call.destination.length_nameHash.trans hs.nameHash.symm)
  obtain ⟨hrandom, h⟩ := append_inj h ((length_randomHash _).trans hs.randomHash.symm)
  exact ⟨hhash, hname, hrandom, h⟩

variable {keys : Keys} {ts ts' : Transport} {p : Packet}

structure Accepted (keys : Keys) (p : Packet) (f : Fields) : Prop where
  announce : p.packetType = .announce
  fields : fields p.contextFlag p.data = some f
  loads : keys.loads f.publicKey = true
  verify : keys.verify f.publicKey f.signature (f.signedData p.destinationHash) = true
  hash : p.destinationHash = truncatedHash (f.nameHash ++ truncatedHash f.publicKey)

def stored (ts : Transport) (p : Packet) (f : Fields) : Transport :=
  (ts.remember p.packetHash p.destinationHash f.publicKey f.appData).setRatchet p.destinationHash f.ratchet

theorem validateAnnounce_eq_true : validateAnnounce keys ts p = (true, ts') ↔
    ∃ f, Accepted keys p f ∧ ts' = stored ts p f := by
  constructor
  · intro h
    rw [validateAnnounce] at h
    split at h
    · cases h
    · rename_i htype
      split at h
      · cases h
      · rename_i f hf
        split at h
        · cases h
        · rename_i hloads
          split at h
          · cases h
          · rename_i hverify
            split at h
            · cases h
            · rename_i hhash
              exact ⟨f, ⟨not_not.mp htype, hf, Bool.not_eq_false _ ▸ hloads, Bool.not_eq_false _ ▸ hverify,
                not_not.mp hhash⟩, (congrArg Prod.snd h).symm⟩
  · rintro ⟨f, ⟨htype, hf, hloads, hverify, hhash⟩, rfl⟩
    simp only [validateAnnounce, hf]
    rw [if_neg (not_not.mpr htype), if_neg (by simp [hloads]), if_neg (by simp [hverify]),
      if_neg (not_not.mpr hhash)]
    rfl

theorem Accepted.length_hash (h : Accepted keys p f) : p.destinationHash.length = truncatedHashLength := by
  rw [h.hash]
  exact length_truncatedHash _

theorem stored_known (ts : Transport) (p : Packet) (f : Fields) :
    (stored ts p f).knownDestinations.lookup p.destinationHash = some ⟨p.packetHash, f.publicKey, f.appData⟩ := by
  have hremember : (ts.remember p.packetHash p.destinationHash f.publicKey f.appData).knownDestinations.lookup
      p.destinationHash = some ⟨p.packetHash, f.publicKey, f.appData⟩ := AList.lookup_insert _
  rw [stored, Transport.setRatchet]
  split
  · exact hremember
  · split
    · exact hremember
    · exact hremember

theorem stored_ratchet (ts : Transport) (h : p.destinationHash ≠ []) (f : Fields) :
    (stored ts p f).knownRatchets.lookup p.destinationHash =
      if f.ratchet = [] then ts.knownRatchets.lookup p.destinationHash else some f.ratchet := by
  rw [stored, Transport.setRatchet]
  by_cases hr : f.ratchet = []
  · rw [if_pos (.inr hr), if_pos hr]
    rfl
  · rw [if_neg (by simp [h, hr]), if_neg hr]
    split
    · rename_i hsame
      exact hsame
    · exact AList.lookup_insert _

/-- An accepted announce stores what the identity announced, up to the ratchet's end, and all if the flag is right. -/
theorem accepted_announce_genuine (keys : Keys) (built : Genuine → Prop) (hu : Unforgeable keys built)
    (ts ts' : Transport) (p : Packet) (h : validateAnnounce keys ts p = (true, ts')) :
    ∃ g ratchet appData, built g ∧ g.call.destination.hash = p.destinationHash ∧
      (∃ f, fields p.contextFlag p.data = some f ∧ f.publicKey = g.call.destination.publicKey ∧
        f.randomHash = g.call.randomHash) ∧
      (ts'.knownDestinations.lookup p.destinationHash).map Known.appData = some appData ∧
      ts'.knownRatchets.lookup p.destinationHash =
        (if ratchet = [] then ts.knownRatchets.lookup p.destinationHash else some ratchet) ∧
      ratchet ++ appData = g.ratchet ++ g.call.effectiveAppData ∧
      (p.contextFlag = decide (g.ratchet ≠ []) → ratchet = g.ratchet ∧ appData = g.call.effectiveAppData) := by
  obtain ⟨f, hacc, rfl⟩ := validateAnnounce_eq_true.mp h
  obtain ⟨-, hsized⟩ := fields_eq_some hacc.fields
  have hsigned : f.signedData p.destinationHash = p.destinationHash ++ (f.publicKey ++
      (f.nameHash ++ (f.randomHash ++ (f.ratchet ++ f.appData)))) := by simp [Fields.signedData]
  have hrest : nameHashLength + randomHashLength ≤
      (f.nameHash ++ (f.randomHash ++ (f.ratchet ++ f.appData))).length := by
    rw [length_append, length_append, hsized.nameHash, hsized.randomHash]
    omega
  obtain ⟨g, hg, hkey, hdata⟩ := hu _ _ _ _ hacc.length_hash hsized.publicKey hrest (hsigned ▸ hacc.verify)
  obtain ⟨hhash, -, hrandom, hcontents⟩ := signedData_inj hsized hacc.length_hash (hdata.trans hsigned.symm)
  have hne : p.destinationHash ≠ [] := List.ne_nil_of_length_pos (by rw [hacc.length_hash]; decide)
  refine ⟨g, f.ratchet, f.appData, hg, hhash, ⟨f, hacc.fields, hkey.symm, hrandom.symm⟩, ?_,
    stored_ratchet ts hne f, hcontents.symm, fun hflag => ?_⟩
  · rw [stored_known]
    rfl
  · have hlength : f.ratchet.length = g.ratchet.length := by
      rw [hsized.ratchet, g.length_ratchet, hflag]
      simp
    exact List.append_inj hcontents.symm hlength

/-- What `Announce` builds is accepted, with its own fields. -/
theorem build_accepted {sign : Bytes → Option Bytes} {c : Call} (hloads : keys.loads c.destination.publicKey = true)
    (hsign : ∀ m signature, sign m = some signature →
      signature.length = signatureLength ∧ keys.verify c.destination.publicKey signature m = true)
    (hp : c.buildAnnouncePacket sign = some p) (ts : Transport) :
    ∃ g : Genuine, g.call = c ∧ ∃ f, f.ratchet = g.ratchet ∧ f.appData = c.effectiveAppData ∧
      validateAnnounce keys ts p = (true, stored ts p f) := by
  obtain ⟨-, hp⟩ := ite_none_left_eq_some.mp hp
  obtain ⟨-, hp⟩ := ite_none_left_eq_some.mp hp
  split at hp
  · cases hp
  · rename_i ratchet hratchet
    split at hp
    · cases hp
    · rename_i signature hsigned
      cases hp
      obtain ⟨hlength, hverify⟩ := hsign _ _ hsigned
      let g : Genuine := ⟨c, ratchet, hratchet⟩
      let f : Fields := ⟨c.destination.publicKey, c.destination.nameHash, c.randomHash, ratchet, signature,
        c.effectiveAppData⟩
      have hsized : f.Sized (decide (ratchet ≠ [])) :=
        ⟨c.destination.length_publicKey, c.destination.length_nameHash, length_randomHash c,
          by simpa using g.length_ratchet, hlength⟩
      refine ⟨g, rfl, f, rfl, rfl, validateAnnounce_eq_true.mpr ⟨f, ⟨rfl, ?_, hloads, hverify, rfl⟩, rfl⟩⟩
      rw [← fields_data hsized]
      simp [f, Fields.data]

def sampleCall : Call where
  destination := {
    publicKey := List.replicate 64 1
    nameHash := List.replicate 10 2
    length_publicKey := List.length_replicate
    length_nameHash := List.length_replicate
    length_ratchets := by
      intro ratchets h
      cases h }
  appData := some (List.replicate 40 5)
  randPart := []
  nowUnix := 0

def sampleGenuine : Genuine := ⟨sampleCall, [], rfl⟩

def sampleSignature : Bytes := List.replicate 64 7

def sampleKeys : Keys where
  loads _ := true
  verify publicKey signature message := decide (publicKey = sampleCall.destination.publicKey ∧
    signature = sampleSignature ∧ message = sampleCall.signedData [])

theorem sampleKeys_unforgeable : Unforgeable sampleKeys (· = sampleGenuine) := by
  intro publicKey signature destinationHash rest _ _ _ h
  obtain ⟨rfl, -, hmessage⟩ := of_decide_eq_true h
  exact ⟨sampleGenuine, rfl, rfl, hmessage.symm⟩

def sampleFields (ratchet appData : Bytes) : Fields :=
  ⟨sampleCall.destination.publicKey, sampleCall.destination.nameHash, sampleCall.randomHash, ratchet, sampleSignature,
    appData⟩

def samplePacket (f : Fields) : Packet where
  packetType := .announce
  contextFlag := f.ratchet ≠ []
  destinationHash := sampleCall.destination.hash
  data := f.data

theorem samplePacket_accepted {ratchet appData : Bytes} (hlength : ratchet.length = if ratchet ≠ [] then 32 else 0)
    (hdata : ratchet ++ appData = replicate 40 5) :
    validateAnnounce sampleKeys {} (samplePacket (sampleFields ratchet appData)) =
      (true, stored {} (samplePacket (sampleFields ratchet appData)) (sampleFields ratchet appData)) := by
  refine validateAnnounce_eq_true.mpr ⟨_, ⟨rfl, fields_data ?_, rfl, ?_, rfl⟩, rfl⟩
  · refine ⟨length_replicate, length_replicate, length_randomHash _, ?_, length_replicate⟩
    change ratchet.length = if decide (ratchet ≠ []) = true then 32 else 0
    rw [hlength]
    simp
  · have hmessage : (sampleFields ratchet appData).signedData sampleCall.destination.hash = sampleCall.signedData [] := by
      simp only [Fields.signedData, Call.signedData, sampleFields, append_assoc, hdata]
      rfl
    simp only [sampleKeys, decide_eq_true_eq]
    exact ⟨rfl, rfl, hmessage⟩

theorem sampleAnnounce_genuine : Unforgeable sampleKeys (· = sampleGenuine) ∧
    validateAnnounce sampleKeys {} (samplePacket (sampleFields [] (List.replicate 40 5))) =
      (true, stored {} (samplePacket (sampleFields [] (List.replicate 40 5))) (sampleFields [] (List.replicate 40 5))) ∧
    ∃ g ratchet appData, g = sampleGenuine ∧ ratchet = g.ratchet ∧ appData = g.call.effectiveAppData := by
  have haccepted := @samplePacket_accepted [] (List.replicate 40 5) rfl rfl
  obtain ⟨g, ratchet, appData, hg, -, -, -, -, -, hsame⟩ :=
    accepted_announce_genuine sampleKeys _ sampleKeys_unforgeable _ _ _ haccepted
  refine ⟨sampleKeys_unforgeable, haccepted, g, ratchet, appData, hg, hsame ?_⟩
  rw [hg]
  rfl

theorem sampleCall_accepted : ∃ p ts, validateAnnounce ⟨fun _ => true, fun _ _ _ => true⟩ {} p = (true, ts) := by
  obtain ⟨-, -, _, -, -, h⟩ := @build_accepted ⟨fun _ => true, fun _ _ _ => true⟩ _ (fun _ => some sampleSignature) sampleCall
    rfl (fun _ _ h => ⟨some.inj h ▸ rfl, rfl⟩) rfl {}
  exact ⟨_, _, h⟩

/-- A relay sets the flag and moves the signature behind the first 32 bytes of the application data. -/
def changedFields : Fields := sampleFields (List.replicate 32 5) (List.replicate 8 5)

/-- The changed announce is accepted, with application data as the ratchet. -/
theorem changed_flag_accepted : ∃ ts', Unforgeable sampleKeys (· = sampleGenuine) ∧
    validateAnnounce sampleKeys {} (samplePacket changedFields) = (true, ts') ∧
    ts'.knownRatchets.lookup sampleCall.destination.hash = some (List.replicate 32 5) ∧
    (ts'.knownDestinations.lookup sampleCall.destination.hash).map Known.appData = some (List.replicate 8 5) ∧
    (sampleGenuine.ratchet, sampleGenuine.call.effectiveAppData) ≠ (List.replicate 32 5, List.replicate 8 5) := by
  have hne : (samplePacket changedFields).destinationHash ≠ [] :=
    List.ne_nil_of_length_pos (by rw [samplePacket, Destination.hash, length_truncatedHash]; decide)
  have hratchet := stored_ratchet {} hne changedFields
  have hknown := congrArg (Option.map Known.appData) (stored_known {} (samplePacket changedFields) changedFields)
  refine ⟨_, sampleKeys_unforgeable, samplePacket_accepted (by simp) (by simp), ?_, hknown, ?_⟩
  · exact hratchet.trans (if_neg nofun)
  · exact fun h => absurd (congrArg Prod.fst h) nofun

end Reticulum.Announce
