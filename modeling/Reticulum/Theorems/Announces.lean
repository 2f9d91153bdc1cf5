import Mathlib.Data.List.Induction
import Reticulum.Theorems.Announce
import Reticulum.Transitions
import Reticulum.Transport.Announces

/-! Over a run of announces the path to a destination gets no older; its ratchet is that of the last valid announce. -/

namespace Reticulum

open Transitions List Option Announce

variable {blobs : List Bytes} {blob : Bytes}

/-! ### Emission times -/

def timebase (blobs : List Bytes) : Nat := blobs.foldl (fun tb blob => max tb (randomBlobTimebase blob)) 0

theorem foldl_max_le {n tb : Nat} : blobs.foldl (fun tb blob => max tb (randomBlobTimebase blob)) tb ≤ n ↔
      tb ≤ n ∧ ∀ blob ∈ blobs, randomBlobTimebase blob ≤ n := by
  induction blobs generalizing tb with
  | nil => simp
  | cons blob blobs ih => rw [foldl_cons, ih, max_le_iff, forall_mem_cons, and_assoc]

theorem le_timebase (h : blob ∈ blobs) : randomBlobTimebase blob ≤ timebase blobs := (foldl_max_le.mp le_rfl).2 blob h

theorem laterTimebase_eq {now : Int} {tb : Nat} (h : plausibleAnnounceTimebase (randomBlobTimebase blob) now = true) :
    laterTimebase now tb blob = max tb (randomBlobTimebase blob) := by
  rw [laterTimebase]
  split
  · rename_i hshort
    rw [randomBlobTimebase, if_pos hshort, Nat.max_zero]
  · rw [if_neg (by simp [h])]
    exact (max_def_lt _ _).symm

theorem randomBlobTimebase_of_announce {data : Bytes} (h : announceRandomBlob data = some blob) :
    randomBlobTimebase blob = announceEmission data := by
  obtain ⟨hlong, h⟩ := ite_none_right_eq_some.mp h
  cases h
  have hlength : ((data.drop randomBlobStart).take 10).length = 10 := by
    rw [length_take, length_drop]
    have : randomBlobEnd = randomBlobStart + 10 := rfl
    omega
  rw [randomBlobTimebase, hlength, if_neg (lt_irrefl 10), announceEmission, if_neg (not_lt.mpr hlong), drop_take,
    drop_drop, take_take]
  rfl

namespace PathRecord

theorem mem_addBlob (blobs : List Bytes) (blob : Bytes) : blob ∈ addBlob blobs blob := by
  rw [addBlob]
  split
  · assumption
  · rename_i hnew
    -- At least the last blob is kept.
    have hle : (blobs ++ [blob]).length - maxRandomBlobs ≤ blobs.length := by
      rw [length_append]
      exact Nat.sub_le_of_le_add (Nat.add_le_add_left (Nat.le_add_left 1 63) _)
    rw [drop_append_of_le_length hle]
    exact mem_append_right _ (mem_singleton_self blob)

theorem of_mem_addBlob {blobs : List Bytes} {blob b : Bytes} (h : b ∈ addBlob blobs blob) : b ∈ blobs ∨ b = blob := by
  rw [addBlob] at h
  split at h
  · exact .inl h
  · rcases mem_append.mp (mem_of_mem_drop h) with h | h
    · exact .inl h
    · exact .inr (mem_singleton.mp h)

/-! ### One decision -/

variable {entry : PathRecord} {a : AnnounceArrival}

theorem consider_eq (entry : PathRecord) (a : AnnounceArrival) :
    (entry.consider a).1.randomBlobs = entry.randomBlobs := by
  rw [consider]
  repeat' split
  all_goals rfl

inductive Reason (entry : PathRecord) (a : AnnounceArrival) : Prop
  | newer : entry.newBlob a = true → timebaseFromRandomBlobs entry.randomBlobs a.now < a.emitted → Reason entry a
  | unresponsive : a.emitted = timebaseFromRandomBlobs entry.randomBlobs a.now → entry.unresponsive = true →
      Reason entry a
  | gravity (current : Interface) : a.emitted = timebaseFromRandomBlobs entry.randomBlobs a.now →
      entry.interface = some current → a.gravity current < a.gravity a.iface → Reason entry a

theorem reason_of_consider (h : (entry.consider a).2 = true) (hnow : a.now < entry.expires) : Reason entry a := by
  rw [consider] at h
  split at h
  · split at h
    · rename_i hnewer
      obtain ⟨hnew, hlt⟩ := (Bool.and_eq_true _ _).mp hnewer
      exact .newer hnew (of_decide_eq_true hlt)
    · split at h
      · rename_i hequal
        split at h
        · rename_i hunresponsive
          exact .unresponsive hequal hunresponsive
        · obtain ⟨current, hcurrent, hgravity⟩ := (any_eq_true _ _).mp h
          exact .gravity current hequal hcurrent (of_decide_eq_true hgravity)
      · cases h
  · split at h
    · rename_i hlt
      split at h
      · rename_i hnew
        exact .newer hnew hlt
      · cases h
    · split at h
      · rename_i hequal
        exact .unresponsive hequal h
      · cases h

theorem mem_replace {blob : Bytes} (hblob : a.randomBlob = some blob) (nextHop : Bytes) :
    blob ∈ (entry.replace a nextHop).randomBlobs := by
  rw [replace, hblob]
  exact mem_addBlob entry.randomBlobs blob

theorem of_mem_replace {b : Bytes} {nextHop : Bytes} (hb : b ∈ (entry.replace a nextHop).randomBlobs) :
    b ∈ entry.randomBlobs ∨ a.randomBlob = some b := by
  rw [replace] at hb
  cases hblob : a.randomBlob with
  | none =>
    rw [hblob] at hb
    exact .inl hb
  | some blob =>
    rw [hblob] at hb
    exact (of_mem_addBlob hb).imp_right fun h => congrArg some h.symm

end PathRecord

/-! ### Valid announces -/

namespace AnnounceArrival

variable {keys : Announce.Keys} {a : AnnounceArrival}

def Valid (keys : Announce.Keys) (a : AnnounceArrival) : Prop := ∃ f, Announce.Accepted keys a.announce f

theorem Valid.randomBlob (h : a.Valid keys) : ∃ blob, a.randomBlob = some blob ∧ randomBlobTimebase blob = a.emitted := by
  obtain ⟨f, hf⟩ := h
  obtain ⟨hdata, hsized⟩ := fields_eq_some hf.fields
  have hlong : randomBlobEnd ≤ a.packet.data.length := by
    have hdata : a.packet.data = f.data := hdata
    rw [hdata, Fields.data]
    simp only [length_append, hsized.publicKey, hsized.nameHash, hsized.randomHash]
    have : randomBlobEnd = keySize + (nameHashLength + randomHashLength) := rfl
    omega
  have hblob : a.randomBlob = some ((a.packet.data.drop randomBlobStart).take 10) := if_pos hlong
  exact ⟨_, hblob, randomBlobTimebase_of_announce hblob⟩

theorem Valid.nextHop (h : a.Valid keys) : ∃ nextHop, a.nextHop = some nextHop := by
  obtain ⟨f, hf⟩ := h
  rw [AnnounceArrival.nextHop]
  split
  · rename_i hid
    cases htransport : a.packet.transportID with
    | none => exact absurd (by rw [htransport]; rfl) hid
    | some id => exact ⟨id, rfl⟩
  · have hne : a.packet.destinationHash ≠ [] := by
      intro hnil
      have hlength : a.packet.destinationHash.length = truncatedHashLength := hf.length_hash
      rw [hnil] at hlength
      cases hlength
    exact ⟨_, if_pos hne⟩

end AnnounceArrival

namespace AnnounceTables

variable {keys : Announce.Keys} {ts ts' : AnnounceTables} {a : AnnounceArrival}
variable {entry : PathRecord}

/-! ### One announce -/

inductive Outcome (keys : Announce.Keys) (a : AnnounceArrival) (paths paths' : Table PathRecord) : Bool → Prop
  | kept : paths' = paths → Outcome keys a paths paths' false
  | installed (nextHop : Bytes) : a.Valid keys → paths.lookup a.packet.destinationHash = none →
      paths' = paths.insert a.packet.destinationHash (a.path nextHop) → Outcome keys a paths paths' true
  | replaced (entry : PathRecord) (nextHop : Bytes) : a.Valid keys →
      paths.lookup a.packet.destinationHash = some entry → (entry.consider a).2 = true →
      paths' = paths.insert a.packet.destinationHash (entry.replace a nextHop) → Outcome keys a paths paths' true

theorem outcome_updatePath (ts : AnnounceTables) (hvalid : a.Valid keys) :
    Outcome keys a ts.pathTable (ts.updatePath a).1.pathTable (ts.updatePath a).2 := by
  obtain ⟨nextHop, hnext⟩ := hvalid.nextHop
  rw [updatePath]
  split
  · rename_i entry hlookup
    dsimp only
    split
    · rename_i hreplace
      rw [hnext]
      refine .replaced entry nextHop hvalid hlookup hreplace ?_
      dsimp only [putPath]
      rw [PathRecord.replace, PathRecord.consider_eq]
      rfl
    · exact .kept rfl
  · rename_i hlookup
    rw [hnext]
    exact .installed nextHop hvalid hlookup rfl

theorem outcome_handleAnnounce (keys : Keys) (ts : AnnounceTables) (a : AnnounceArrival) :
    Outcome keys a ts.pathTable (ts.handleAnnounce keys a).1.pathTable (ts.handleAnnounce keys a).2 := by
  rw [handleAnnounce]
  cases hvalidate : validateAnnounce keys ts.known a.announce with
  | mk valid known =>
    dsimp only
    split
    · exact .kept rfl
    · rename_i hvalid
      rw [Bool.not_eq_false] at hvalid
      rw [hvalid] at hvalidate
      obtain ⟨f, hf, -⟩ := validateAnnounce_eq_true.mp hvalidate
      split
      · exact .kept rfl
      · split
        · exact .kept rfl
        · exact outcome_updatePath { ts with known } ⟨f, hf⟩

/-! ### Runs -/

variable {h : Bytes} {e : PathEvent} {es : List PathEvent} {n : Nat}

structure Concerns (keys : Announce.Keys) (h : Bytes) (a : AnnounceArrival) : Prop where
  destination : a.packet.destinationHash = h
  valid : a.Valid keys

/-- The emission times of valid announces for the destination, and of those stored, are plausible when looked at. -/
structure PlausibleRun (keys : Announce.Keys) (h : Bytes) (ts : AnnounceTables) (es : List PathEvent) : Prop where
  stored : ∀ entry, ts.pathTable.lookup h = some entry → ∀ blob ∈ entry.randomBlobs, ∀ b, .announce b ∈ es →
    Concerns keys h b → plausibleAnnounceTimebase (randomBlobTimebase blob) b.now = true
  later : es.Pairwise fun e e' => ∀ a b, e = .announce a → e' = .announce b → Concerns keys h a → Concerns keys h b →
    plausibleAnnounceTimebase a.emitted b.now = true

def Unexpired (keys : Announce.Keys) (h : Bytes) (ts : AnnounceTables) (e : PathEvent) : Prop :=
  ∀ a entry, e = .announce a → a.packet.destinationHash = h → ts.pathTable.lookup h = some entry →
    (ts.handleAnnounce keys a).2 = true → a.now < entry.expires

structure Ready (keys : Announce.Keys) (h : Bytes) (ts : AnnounceTables) (es : List PathEvent) : Prop where
  times : PlausibleRun keys h ts es
  unexpired : Keeps (step keys) (Unexpired keys h) ts es

def AtLeast (h : Bytes) (n : Nat) (ts : AnnounceTables) : Prop :=
  ∃ entry, ts.pathTable.lookup h = some entry ∧ n ≤ timebase entry.randomBlobs

theorem Ready.timebase_eq (hr : Ready keys h ts (.announce a :: es)) (ha : Concerns keys h a)
    (hentry : ts.pathTable.lookup h = some entry) :
    timebaseFromRandomBlobs entry.randomBlobs a.now = timebase entry.randomBlobs :=
  foldl_ext _ _ _ fun _ blob hblob => laterTimebase_eq (hr.times.stored entry hentry blob hblob a mem_cons_self ha)

theorem Ready.le_emitted (hr : Ready keys h ts (.announce a :: es)) (ha : Concerns keys h a)
    (hentry : ts.pathTable.lookup h = some entry) (hreplace : (entry.consider a).2 = true)
    (htaken : (ts.handleAnnounce keys a).2 = true) : timebase entry.randomBlobs ≤ a.emitted := by
  have hnow : a.now < entry.expires := hr.unexpired.1 a entry rfl ha.destination hentry htaken
  cases PathRecord.reason_of_consider hreplace hnow with
  | newer _ hlt => exact hr.timebase_eq ha hentry ▸ hlt.le
  | unresponsive heq _ | gravity _ heq _ _ => exact (heq.trans (hr.timebase_eq ha hentry)).ge

theorem emitted_le_replace (hvalid : a.Valid keys) (nextHop : Bytes) :
    a.emitted ≤ timebase (entry.replace a nextHop).randomBlobs := by
  obtain ⟨blob, hblob, htimebase⟩ := hvalid.randomBlob
  exact htimebase ▸ le_timebase (PathRecord.mem_replace hblob nextHop)

theorem atLeast_of_taken (hdest : a.packet.destinationHash = h) (htaken : (ts.handleAnnounce keys a).2 = true) :
    AtLeast h a.emitted (ts.handleAnnounce keys a).1 := by
  have ho := outcome_handleAnnounce keys ts a
  rw [htaken] at ho
  cases ho with
  | installed nextHop hvalid hlookup hpaths =>
    obtain ⟨blob, hblob, htimebase⟩ := hvalid.randomBlob
    refine ⟨a.path nextHop, ?_, htimebase ▸ le_timebase (mem_toList.mpr hblob)⟩
    rw [hpaths, hdest, AList.lookup_insert]
  | replaced entry nextHop hvalid hlookup hreplace hpaths =>
    refine ⟨entry.replace a nextHop, ?_, emitted_le_replace hvalid nextHop⟩
    rw [hpaths, hdest, AList.lookup_insert]

inductive Change (keys : Announce.Keys) (h : Bytes) (ts : AnnounceTables) (e : PathEvent) :
    Option PathRecord → Option PathRecord → Prop
  | same {before : Option PathRecord} : Change keys h ts e before before
  | marked {entry : PathRecord} (state : ResponsiveState) : e = .mark h state →
      Change keys h ts e (some entry) (some (entry.mark state))
  | installed (a : AnnounceArrival) (nextHop : Bytes) : e = .announce a → Concerns keys h a →
      Change keys h ts e none (some (a.path nextHop))
  | replaced {entry : PathRecord} (a : AnnounceArrival) (nextHop : Bytes) : e = .announce a → Concerns keys h a →
      (ts.handleAnnounce keys a).2 = true → (entry.consider a).2 = true →
      Change keys h ts e (some entry) (some (entry.replace a nextHop))

theorem change_of_step (hstep : ts.step keys e = some ts') :
    Change keys h ts e (ts.pathTable.lookup h) (ts'.pathTable.lookup h) := by
  cases e with
  | announce a =>
    cases hstep
    have ho := outcome_handleAnnounce keys ts a
    generalize htaken : (ts.handleAnnounce keys a).2 = taken at ho
    by_cases hdest : a.packet.destinationHash = h
    · cases ho with
      | kept hpaths =>
        rw [hpaths]
        exact .same
      | installed nextHop hvalid hlookup hpaths =>
        rw [hpaths, ← hdest, hlookup, AList.lookup_insert]
        exact .installed a nextHop rfl ⟨rfl, hvalid⟩
      | replaced entry nextHop hvalid hlookup hreplace hpaths =>
        rw [hpaths, ← hdest, hlookup, AList.lookup_insert]
        exact .replaced a nextHop rfl ⟨rfl, hvalid⟩ htaken hreplace
    · have hsame : (ts.handleAnnounce keys a).1.pathTable.lookup h = ts.pathTable.lookup h := by
        cases ho with
        | kept hpaths => rw [hpaths]
        | installed _ _ _ hpaths | replaced _ _ _ _ _ hpaths => rw [hpaths, AList.lookup_insert_ne (Ne.symm hdest)]
      rw [hsame]
      exact .same
  | mark destHash state =>
    cases hstep
    rw [markPath]
    split
    · exact .same
    · rename_i entry hlookup
      dsimp only [putPath]
      by_cases hdest : destHash = h
      · rw [← hdest, hlookup, AList.lookup_insert]
        exact .marked state rfl
      · rw [AList.lookup_insert_ne (Ne.symm hdest)]
        exact .same

theorem Ready.after_step (hr : Ready keys h ts (e :: es)) (hstep : ts.step keys e = some ts') : Ready keys h ts' es := by
  obtain ⟨hlater, hpairwise⟩ := pairwise_cons.mp hr.times.later
  refine ⟨⟨?_, hpairwise⟩, hr.unexpired.2 ts' hstep⟩
  have hstored : ∀ entry, ts.pathTable.lookup h = some entry → ∀ blob ∈ entry.randomBlobs, ∀ b, .announce b ∈ es →
      Concerns keys h b → plausibleAnnounceTimebase (randomBlobTimebase blob) b.now = true :=
    fun entry hentry blob hblob b hb => hr.times.stored entry hentry blob hblob b (mem_cons_of_mem _ hb)
  -- A blob that an announce brings is plausible later, since the announce is.
  have hbrought : ∀ a, e = .announce a → Concerns keys h a → ∀ blob, a.randomBlob = some blob → ∀ b, .announce b ∈ es →
      Concerns keys h b → plausibleAnnounceTimebase (randomBlobTimebase blob) b.now = true := by
    intro a he ha blob hblob b hb hconcerns
    rw [randomBlobTimebase_of_announce hblob]
    exact hlater _ hb a b he rfl ha hconcerns
  intro entry' hentry' blob hblob b hb hconcerns
  have hchange := change_of_step (h := h) hstep
  rw [hentry'] at hchange
  generalize hbefore : ts.pathTable.lookup h = before at hchange
  cases hchange with
  | same => exact hstored entry' hbefore blob hblob b hb hconcerns
  | marked state _ => exact hstored _ hbefore blob hblob b hb hconcerns
  | installed a nextHop he ha =>
    exact hbrought a he ha blob (mem_toList.mp hblob) b hb hconcerns
  | replaced a nextHop he ha _ _ =>
    rcases PathRecord.of_mem_replace hblob with hold | hnew
    · exact hstored _ hbefore blob hold b hb hconcerns
    · exact hbrought a he ha blob hnew b hb hconcerns

theorem AtLeast.after_step (hr : Ready keys h ts (e :: es)) (hstep : ts.step keys e = some ts') (hn : AtLeast h n ts) :
    AtLeast h n ts' := by
  obtain ⟨entry, hentry, hle⟩ := hn
  have hchange := change_of_step (h := h) hstep
  rw [hentry] at hchange
  generalize hafter : ts'.pathTable.lookup h = after at hchange
  cases hchange with
  | same => exact ⟨entry, hafter, hle⟩
  | marked state _ => exact ⟨_, hafter, hle⟩
  | replaced a nextHop he ha htaken hreplace =>
    subst he
    refine ⟨_, hafter, ?_⟩
    calc n ≤ timebase entry.randomBlobs := hle
      _ ≤ a.emitted := hr.le_emitted ha hentry hreplace htaken
      _ ≤ _ := emitted_le_replace ha.valid nextHop

theorem Ready.after_run {as bs : List PathEvent} (hr : Ready keys h ts (as ++ bs)) (hrun : run (step keys) ts as = some ts') :
    Ready keys h ts' bs ∧ ∀ n, AtLeast h n ts → AtLeast h n ts' := by
  induction as generalizing ts with
  | nil =>
    obtain rfl := run_nil.mp hrun
    exact ⟨hr, fun _ hn => hn⟩
  | cons e as ih =>
    obtain ⟨ts₁, hstep, hrun⟩ := run_cons.mp hrun
    obtain ⟨hready, hmono⟩ := ih (hr.after_step hstep) hrun
    exact ⟨hready, fun n hn => hmono n (hn.after_step hr hstep)⟩

theorem Ready.kept_or_preferred (hr : Ready keys h ts (.announce a :: es))
    (hdest : a.packet.destinationHash = h) (hentry : ts.pathTable.lookup h = some entry)
    (hle : a.emitted ≤ timebase entry.randomBlobs) : (ts.handleAnnounce keys a).1.pathTable.lookup h = some entry ∨
      a.emitted = timebase entry.randomBlobs ∧ (entry.unresponsive = true ∨
        ∃ current, entry.interface = some current ∧ a.gravity current < a.gravity a.iface) := by
  have hchange := change_of_step (h := h) (show ts.step keys (.announce a) = some (ts.handleAnnounce keys a).1 from rfl)
  rw [hentry] at hchange
  generalize hafter : (ts.handleAnnounce keys a).1.pathTable.lookup h = after at hchange
  cases hchange with
  | same => exact .inl rfl
  | marked state he => cases he
  | replaced a' nextHop he ha htaken hreplace =>
    obtain rfl := PathEvent.announce.inj he
    have hnow : a.now < entry.expires := hr.unexpired.1 a entry rfl hdest hentry htaken
    have htimebase := hr.timebase_eq ha hentry
    cases PathRecord.reason_of_consider hreplace hnow with
    | newer _ hlt => exact absurd (htimebase ▸ hlt) (not_lt.mpr hle)
    | unresponsive heq hunresponsive => exact .inr ⟨heq.trans htimebase, .inl hunresponsive⟩
    | gravity current heq hcurrent hgravity =>
      exact .inr ⟨heq.trans htimebase, .inr ⟨current, hcurrent, hgravity⟩⟩

structure PathFresh (keys : Announce.Keys) (h : Bytes) (ts : AnnounceTables) (es : List PathEvent) : Prop where
  /-- Its timebase never decreases. -/
  timebase : ∀ as bs cs ts₁ ts₂ entry₁ entry₂, es = as ++ bs ++ cs → run (step keys) ts as = some ts₁ →
    run (step keys) ts₁ bs = some ts₂ → ts₁.pathTable.lookup h = some entry₁ → ts₂.pathTable.lookup h = some entry₂ →
    timebase entry₁.randomBlobs ≤ timebase entry₂.randomBlobs
  /-- It is the one that `handleAnnounce` computes for a valid announce. -/
  computed : ∀ as a bs ts₁ entry, es = as ++ .announce a :: bs → run (step keys) ts as = some ts₁ →
    Concerns keys h a → ts₁.pathTable.lookup h = some entry →
    timebaseFromRandomBlobs entry.randomBlobs a.now = Reticulum.timebase entry.randomBlobs
  /-- An announce that is older than one that was accepted changes nothing. -/
  older : ∀ as a bs b cs ts₁ ts₂, es = as ++ .announce a :: (bs ++ .announce b :: cs) →
    run (step keys) ts as = some ts₁ → a.packet.destinationHash = h → (ts₁.handleAnnounce keys a).2 = true →
    run (step keys) (ts₁.handleAnnounce keys a).1 bs = some ts₂ → b.packet.destinationHash = h →
    b.emitted < a.emitted → (ts₂.handleAnnounce keys b).1.pathTable.lookup h = ts₂.pathTable.lookup h
  /-- A random blob that was accepted changes the entry again for a reason only. -/
  replayed : ∀ as a bs b cs ts₁ ts₂ entry, es = as ++ .announce a :: (bs ++ .announce b :: cs) →
    run (step keys) ts as = some ts₁ → a.packet.destinationHash = h → (ts₁.handleAnnounce keys a).2 = true →
    run (step keys) (ts₁.handleAnnounce keys a).1 bs = some ts₂ → b.packet.destinationHash = h →
    b.randomBlob = a.randomBlob → ts₂.pathTable.lookup h = some entry →
    (ts₂.handleAnnounce keys b).1.pathTable.lookup h ≠ some entry →
    entry.unresponsive = true ∨ b.emitted = Reticulum.timebase entry.randomBlobs ∧
      ∃ current, entry.interface = some current ∧ b.gravity current < b.gravity b.iface

theorem Ready.after_taken {as bs cs : List PathEvent} {ts₁ ts₂ : AnnounceTables}
    (hr : Ready keys h ts (as ++ .announce a :: (bs ++ cs))) (h₁ : run (AnnounceTables.step keys) ts as = some ts₁)
    (hdest : a.packet.destinationHash = h) (htaken : (ts₁.handleAnnounce keys a).2 = true)
    (h₂ : run (AnnounceTables.step keys) (ts₁.handleAnnounce keys a).1 bs = some ts₂) :
    Ready keys h ts₂ cs ∧ AtLeast h a.emitted ts₂ := by
  have hready := (hr.after_run h₁).1
  have hstep : ts₁.step keys (.announce a) = some (ts₁.handleAnnounce keys a).1 := rfl
  obtain ⟨hready₂, hmono⟩ := (hready.after_step hstep).after_run h₂
  exact ⟨hready₂, hmono _ (atLeast_of_taken hdest htaken)⟩

theorem emitted_of_randomBlob {b : AnnounceArrival} (ha : a.Valid keys) (h : b.randomBlob = a.randomBlob) :
    b.emitted = a.emitted := by
  obtain ⟨blob, hblob, htimebase⟩ := ha.randomBlob
  rw [← htimebase, randomBlobTimebase_of_announce (h.trans hblob)]
  rfl

theorem valid_of_taken (htaken : (ts.handleAnnounce keys a).2 = true) : a.Valid keys := by
  have ho := outcome_handleAnnounce keys ts a
  rw [htaken] at ho
  cases ho with
  | installed nextHop hvalid hlookup hpaths | replaced entry nextHop hvalid hlookup hreplace hpaths => exact hvalid

/-- The path to a destination stays fresh as long as its entry has not expired when it is replaced. -/
theorem pathFresh_of_plausibleRun (keys : Announce.Keys) (h : Bytes) (ts : AnnounceTables) (es : List PathEvent)
    (htimes : PlausibleRun keys h ts es) (hunexpired : Keeps (step keys) (Unexpired keys h) ts es) :
    PathFresh keys h ts es := by
  have hready : Ready keys h ts es := ⟨htimes, hunexpired⟩
  constructor
  case timebase =>
    rintro as bs cs ts₁ ts₂ entry₁ entry₂ rfl h₁ h₂ hentry₁ hentry₂
    rw [List.append_assoc] at hready
    obtain ⟨hready, -⟩ := hready.after_run h₁
    obtain ⟨entry, hentry, hle⟩ := (hready.after_run h₂).2 _ ⟨entry₁, hentry₁, le_rfl⟩
    rwa [Option.some.inj (hentry₂.symm.trans hentry)]
  case computed =>
    rintro as a bs ts₁ entry rfl h₁ ha hentry
    exact (hready.after_run h₁).1.timebase_eq ha hentry
  case older =>
    rintro as a bs b cs ts₁ ts₂ rfl h₁ hdest htaken h₂ hdest' hlt
    obtain ⟨hready, entry, hentry, hle⟩ := hready.after_taken h₁ hdest htaken h₂
    have hlt : b.emitted < Reticulum.timebase entry.randomBlobs := hlt.trans_le hle
    rcases hready.kept_or_preferred hdest' hentry hlt.le with hkept | ⟨heq, -⟩
    · rw [hkept, hentry]
    · exact absurd heq hlt.ne
  case replayed =>
    rintro as a bs b cs ts₁ ts₂ entry rfl h₁ hdest htaken h₂ hdest' hblob hentry hchanged
    obtain ⟨hready, entry', hentry', hle⟩ := hready.after_taken h₁ hdest htaken h₂
    obtain rfl := Option.some.inj (hentry.symm.trans hentry')
    have hle := (emitted_of_randomBlob (valid_of_taken htaken) hblob).trans_le hle
    rcases hready.kept_or_preferred hdest' hentry hle with hkept | ⟨heq, hunresponsive | hgravity⟩
    · exact absurd hkept hchanged
    · exact .inl hunresponsive
    · exact .inr ⟨heq, hgravity⟩

instance (keys : Announce.Keys) (h : Bytes) (ts : AnnounceTables) : ∀ e, Decidable (Unexpired keys h ts e)
  | .mark _ _ => isTrue fun _ _ he => nomatch he
  | .announce a =>
    decidable_of_iff (a.packet.destinationHash = h → (ts.pathTable.lookup h).all fun entry =>
        (ts.handleAnnounce keys a).2 = true → a.now < entry.expires) <| by
      constructor
      · rintro hall a' entry he hdest hentry
        obtain rfl := PathEvent.announce.inj he
        have := hall hdest
        rw [hentry] at this
        exact of_decide_eq_true this
      · intro hun hdest
        cases hentry : ts.pathTable.lookup h with
        | none => rfl
        | some entry => exact decide_eq_true (hun a entry rfl hdest hentry)

end AnnounceTables

namespace Sample

def anyKeys : Announce.Keys where
  loads _ := true
  verify _ _ _ := true

def publicKey : Bytes := List.replicate 64 1
def nameHash : Bytes := List.replicate 10 2

def announced : Bytes := [38, 231, 244, 12, 187, 236, 195, 168, 168, 113, 166, 186, 21, 116, 73, 32]

def arrival (emitted : UInt8) (hops : Nat) (later : Int) : AnnounceArrival where
  packet := {
    raw := []
    flags := 0
    hops
    headerType := .header1
    contextFlag := true
    transportType := .broadcast
    destinationType := .single
    packetType := .announce
    transportID := none
    destinationHash := announced
    context := 0
    data := publicKey ++ nameHash ++ [7, 7, 7, 7, 7, 0, 0, 0, 0, emitted] ++ List.replicate 32 emitted ++
      List.replicate 64 3 }
  iface := { id := 1 }
  now := (emitted.toNat + later) * second

def inTurn : List PathEvent := [.announce (arrival 100 1 1), .announce (arrival 200 2 1)]

def replayed : List PathEvent := [.announce (arrival 200 2 1), .announce (arrival 100 1 150)]

def plausibleAt : PathEvent → PathEvent → Bool
  | .announce a, .announce b => plausibleAnnounceTimebase a.emitted b.now
  | _, _ => true

end Sample

namespace AnnounceTables

theorem replayed_path_fresh : PathFresh Sample.anyKeys Sample.announced {} Sample.replayed := by
  refine pathFresh_of_plausibleRun _ _ _ _ ⟨(fun entry hentry => nomatch hentry), ?_⟩ (by decide +kernel)
  have hpairs : Sample.replayed.Pairwise fun e e' => Sample.plausibleAt e e' = true := by decide +kernel
  refine hpairs.imp fun {e e'} htimes a b he he' _ _ => ?_
  subst he he'
  exact htimes

end AnnounceTables

/-! ### Ratchets -/

def AnnounceArrival.ratchet (keys : Announce.Keys) (a : AnnounceArrival) : Option Bytes :=
  if (Announce.validateAnnounce keys {} a.announce).1 then
    (Announce.fields a.packet.contextFlag a.packet.data).bind fun f => if f.ratchet = [] then none else some f.ratchet
  else none

theorem Announce.validateAnnounce_cases (keys : Keys) (ts : Transport) (p : Packet) :
    (∃ f, Accepted keys p f ∧ validateAnnounce keys ts p = (true, stored ts p f)) ∨
      (∀ f, ¬Accepted keys p f) ∧ validateAnnounce keys ts p = (false, ts) := by
  by_cases haccepted : ∃ f, Accepted keys p f
  · obtain ⟨f, hf⟩ := haccepted
    exact .inl ⟨f, hf, validateAnnounce_eq_true.mpr ⟨f, hf, rfl⟩⟩
  · refine .inr ⟨not_exists.mp haccepted, ?_⟩
    cases hv : validateAnnounce keys ts p with
    | mk valid ts' =>
      cases valid with
      | true =>
        obtain ⟨f, hf, -⟩ := validateAnnounce_eq_true.mp hv
        exact absurd ⟨f, hf⟩ haccepted
      | false =>
        rw [validateAnnounce] at hv
        repeat' split at hv
        all_goals first | exact hv.symm | cases hv

theorem AnnounceArrival.ratchet_of_accepted {keys : Keys} {a : AnnounceArrival} {f : Fields}
    (hf : Accepted keys a.announce f) : a.ratchet keys = if f.ratchet = [] then none else some f.ratchet := by
  have hvalid : (validateAnnounce keys {} a.announce).1 = true :=
    congrArg Prod.fst (validateAnnounce_eq_true.mpr ⟨f, hf, rfl⟩)
  have hfields : fields a.packet.contextFlag a.packet.data = some f := hf.fields
  rw [ratchet, if_pos hvalid, hfields]
  rfl

namespace AnnounceTables

variable {keys : Announce.Keys} {ts ts' : AnnounceTables} {a : AnnounceArrival} {h : Bytes} {e : PathEvent}
  {es : List PathEvent}
variable {p : Nat × Bytes}

theorem known_updatePath (ts : AnnounceTables) (a : AnnounceArrival) : (ts.updatePath a).1.known = ts.known := by
  rw [updatePath]
  repeat' split
  all_goals rfl

/-- What an event brings for a destination: the emission time and the ratchet of a valid announce. -/
def brings (keys : Announce.Keys) (h : Bytes) : PathEvent → Option (Nat × Bytes)
  | .announce a => if a.packet.destinationHash = h then (a.ratchet keys).map fun r => (a.emitted, r) else none
  | .mark _ _ => none

def carried (keys : Announce.Keys) (h : Bytes) (es : List PathEvent) : List (Nat × Bytes) :=
  es.filterMap (brings keys h)

theorem ratchet_handleAnnounce (ts : AnnounceTables) (a : AnnounceArrival) (h : Bytes) :
    (ts.handleAnnounce keys a).1.known.knownRatchets.lookup h =
      ((brings keys h (.announce a)).map Prod.snd).or (ts.known.knownRatchets.lookup h) := by
  have hknown : (ts.handleAnnounce keys a).1.known = (validateAnnounce keys ts.known a.announce).2 := by
    rw [handleAnnounce]
    dsimp only
    split_ifs
    · rfl
    · rfl
    · rfl
    · exact known_updatePath _ a
  rw [hknown, brings]
  rcases Announce.validateAnnounce_cases keys ts.known a.announce with ⟨f, hf, hv⟩ | ⟨hnone, hv⟩
  · rw [hv, AnnounceArrival.ratchet_of_accepted hf]
    by_cases hdest : a.packet.destinationHash = h
    · rw [if_pos hdest]
      subst hdest
      have hne : a.announce.destinationHash ≠ [] := ne_nil_of_length_pos (by rw [hf.length_hash]; decide)
      refine (Announce.stored_ratchet ts.known hne f).trans ?_
      split <;> rfl
    · rw [if_neg hdest]
      rw [Announce.stored, Announce.Transport.setRatchet]
      split_ifs
      · rfl
      · rfl
      · exact AList.lookup_insert_ne (Ne.symm hdest)
  · have hratchet : a.ratchet keys = none := by
      rcases Announce.validateAnnounce_cases keys {} a.announce with ⟨f, hf, -⟩ | ⟨-, hv⟩
      · exact absurd hf (hnone f)
      · rw [AnnounceArrival.ratchet, hv]
        rfl
    rw [hv, hratchet]
    split <;> rfl

theorem ratchet_step (hstep : ts.step keys e = some ts') :
    ts'.known.knownRatchets.lookup h = ((brings keys h e).map Prod.snd).or (ts.known.knownRatchets.lookup h) := by
  cases e with
  | announce a =>
    cases hstep
    exact ratchet_handleAnnounce ts a h
  | mark destHash state =>
    cases hstep
    rw [markPath]
    split <;> rfl

theorem ratchet_run (hrun : run (step keys) ts es = some ts') : ts'.known.knownRatchets.lookup h =
      ((carried keys h es).getLast?.map Prod.snd).or (ts.known.knownRatchets.lookup h) := by
  induction es generalizing ts with
  | nil =>
    obtain rfl := run_nil.mp hrun
    rfl
  | cons e es ih =>
    obtain ⟨ts₁, hstep, hrun⟩ := run_cons.mp hrun
    rw [ih hrun, ratchet_step hstep, carried, carried, filterMap_cons]
    cases brings keys h e with
    | none => rfl
    | some p =>
      rw [getLast?_cons]
      cases (es.filterMap (brings keys h)).getLast? <;> rfl

def Newest (announces : List (Nat × Bytes)) (r : Bytes) : Prop :=
  ∃ p ∈ announces, p.2 = r ∧ ∀ q ∈ announces, q.1 ≤ p.1

theorem newest_append {announces : List (Nat × Bytes)} :
    Newest (announces ++ [p]) p.2 ↔ (∀ q ∈ announces, q.1 ≤ p.1) ∨ Newest announces p.2 := by
  constructor
  · rintro ⟨q, hq, hr, hmax⟩
    rcases mem_append.mp hq with hq | hq
    · exact .inr ⟨q, hq, hr, fun o ho => hmax o (mem_append_left _ ho)⟩
    · obtain rfl := mem_singleton.mp hq
      exact .inl fun o ho => hmax o (mem_append_left _ ho)
  · intro h
    by_cases hnewest : ∀ q ∈ announces, q.1 ≤ p.1
    · refine ⟨p, mem_append_right _ (mem_singleton_self p), rfl, fun q hq => ?_⟩
      rcases mem_append.mp hq with hq | hq
      · exact hnewest q hq
      · rw [mem_singleton.mp hq]
    · obtain ⟨q, hq, hr, hmax⟩ := h.resolve_left hnewest
      refine ⟨q, mem_append_left _ hq, hr, fun o ho => ?_⟩
      rcases mem_append.mp ho with ho | ho
      · exact hmax o ho
      · -- The last one is older than some other, and that is not newer than the newest.
        obtain ⟨o', ho', hlt⟩ : ∃ o ∈ announces, ¬o.1 ≤ p.1 := by simpa using hnewest
        rw [mem_singleton.mp ho]
        exact (not_le.mp hlt).le.trans (hmax o' ho')

/-- After every step of the run the ratchet is that of the newest valid announce that carried one. -/
def RatchetFresh (keys : Announce.Keys) (h : Bytes) (ts : AnnounceTables) (es : List PathEvent) : Prop :=
  ∀ as bs ts', es = as ++ bs → run (step keys) ts as = some ts' → carried keys h as ≠ [] →
    ∀ stored, ∃ r, ts'.getRatchet h stored = some r ∧ Newest (carried keys h as) r

/-- A valid announce with a ratchet is at least as new as those before it, or repeats the ratchet of the newest. -/
def InOrder (keys : Announce.Keys) (h : Bytes) (es : List PathEvent) : Prop :=
  ∀ as e bs p, es = as ++ e :: bs → brings keys h e = some p →
    (∀ q ∈ carried keys h as, q.1 ≤ p.1) ∨ Newest (carried keys h as) p.2

theorem getRatchet_of_last (hrun : run (step keys) ts es = some ts')
    (hlast : (carried keys h es).getLast? = some p) (stored : Option Bytes) : ts'.getRatchet h stored = some p.2 := by
  have hlookup := ratchet_run (h := h) hrun
  rw [hlast] at hlookup
  rw [getRatchet, hlookup]
  rfl

theorem run_isSome (keys : Keys) (ts : AnnounceTables) (es : List PathEvent) :
    ∃ ts', run (step keys) ts es = some ts' := by
  induction es generalizing ts with
  | nil => exact ⟨ts, rfl⟩
  | cons e es ih =>
    obtain ⟨ts₁, hstep⟩ : ∃ ts₁, ts.step keys e = some ts₁ := by cases e <;> exact ⟨_, rfl⟩
    obtain ⟨ts', hrun⟩ := ih ts₁
    exact ⟨ts', run_cons.mpr ⟨ts₁, hstep, hrun⟩⟩

theorem carried_concat_of_brings (hbrings : brings keys h e = some p) (as : List PathEvent) :
    carried keys h (as ++ [e]) = carried keys h as ++ [p] := by
  rw [carried, filterMap_append, filterMap_cons, hbrings]
  rfl

theorem newest_of_inOrder (hinOrder : InOrder keys h es) {as bs : List PathEvent} (hes : es = as ++ bs)
    (hcarried : carried keys h as ≠ []) :
    ∃ p, (carried keys h as).getLast? = some p ∧ Newest (carried keys h as) p.2 := by
  -- From the end of the run back to the last announce that carried a ratchet.
  induction as using reverseRecOn generalizing bs with
  | nil => exact absurd rfl hcarried
  | append_singleton as e ih =>
    rw [append_assoc] at hes
    cases hbrings : brings keys h e with
    | none =>
      have hsame : carried keys h (as ++ [e]) = carried keys h as := by
        rw [carried, filterMap_append, filterMap_cons, hbrings]
        exact append_nil _
      rw [hsame] at hcarried ⊢
      exact ih hes hcarried
    | some p =>
      rw [carried_concat_of_brings hbrings]
      exact ⟨p, getLast?_concat, newest_append.mpr (hinOrder as e bs p hes hbrings)⟩

/-- The ratchet stays fresh just when no announce brings an old one. -/
theorem ratchetFresh_iff_inOrder (keys : Announce.Keys) (h : Bytes) (ts : AnnounceTables) (es : List PathEvent) :
    RatchetFresh keys h ts es ↔ InOrder keys h es := by
  constructor
  · rintro hfresh as e bs p rfl hbrings
    have hcarried := carried_concat_of_brings hbrings as
    have hlast : (carried keys h (as ++ [e])).getLast? = some p := by rw [hcarried, List.getLast?_concat]
    obtain ⟨ts', hrun⟩ := run_isSome keys ts (as ++ [e])
    obtain ⟨r, hr, hnewest⟩ := hfresh (as ++ [e]) bs ts' (by simp) hrun (by simp [hcarried]) none
    obtain rfl := Option.some.inj (hr.symm.trans (getRatchet_of_last hrun hlast none))
    rw [hcarried] at hnewest
    exact newest_append.mp hnewest
  · intro hinOrder as bs ts' hes hrun hcarried stored
    obtain ⟨p, hlast, hnewest⟩ := newest_of_inOrder hinOrder hes hcarried
    exact ⟨p.2, getRatchet_of_last hrun hlast stored, hnewest⟩

theorem ratchet_follows_announces : RatchetFresh Sample.anyKeys Sample.announced {} Sample.inTurn := by
  refine (ratchetFresh_iff_inOrder _ _ _ _).mpr fun as e bs p hes hbrings => .inl fun q hq => ?_
  rcases as with _ | ⟨first, _ | ⟨second, as⟩⟩
  · cases hq
  · have hes : [.announce (Sample.arrival 100 1 1), .announce (Sample.arrival 200 2 1)] = first :: e :: bs := hes
    obtain ⟨rfl, rfl, -⟩ := hes
    have hp : brings Sample.anyKeys Sample.announced (.announce (Sample.arrival 200 2 1)) =
        some (200, List.replicate 32 200) := by decide +kernel
    have hc : carried Sample.anyKeys Sample.announced [.announce (Sample.arrival 100 1 1)] =
        [(100, List.replicate 32 100)] := by decide +kernel
    obtain rfl := Option.some.inj (hbrings.symm.trans hp)
    rw [hc] at hq
    obtain rfl := List.mem_singleton.mp hq
    decide
  · have hlength := congrArg List.length hes
    simp [Sample.inTurn] at hlength

/-- The older announce is received again after the newer one, and its ratchet is back. -/
theorem replayed_ratchet_returns :
    ((run (step Sample.anyKeys) {} (Sample.replayed.take 1)).bind fun ts => ts.getRatchet Sample.announced none) =
        some (List.replicate 32 200) ∧
      ((run (step Sample.anyKeys) {} Sample.replayed).bind fun ts => ts.getRatchet Sample.announced none) =
        some (List.replicate 32 100) := by
  decide +kernel

end AnnounceTables

end Reticulum
