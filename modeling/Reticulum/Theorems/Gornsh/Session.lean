import Reticulum.Gornsh.Session

/-! # Who gets a shell

The session moves one way, from the identity to the version to the command. -/

namespace Reticulum.Gornsh

open Threads List Option Listener

/-- The command of a listener that takes none from the initiator. -/
def ListenerConfig.baseCommand (cfg : ListenerConfig) : List Bytes :=
  if cfg.commandLine = [] then [cfg.loginShell] else cfg.commandLine

def ListenerConfig.Admits (cfg : ListenerConfig) (identities : List Bytes) : Prop :=
  cfg.noAuth = true ∨ ∃ hash ∈ identities, hash ∈ cfg.allowedList

def LsState.Early (s : LsState) : Prop := s = .waitIdent ∨ s = .waitVers ∨ s = .waitCmd

instance (s : LsState) : Decidable s.Early := inferInstanceAs (Decidable (_ ∨ _ ∨ _))

def Point.isStart : Point → Bool
  | .start .. => true
  | _ => false

variable {cfg : ListenerConfig} {l l' : Listener} {t : Point} {next : List Point} {out : Outcome}

/-! ### What a section does -/

structure ListenerSession.Of (cfg : ListenerConfig) (s : ListenerSession) : Prop where
  allowAll : s.allowAll = cfg.noAuth
  allowRemoteCommand : s.allowRemoteCommand = !cfg.noRemoteCmd
  baseCommand : s.baseCommand = cfg.baseCommand

theorem ListenerSession.of_new (cfg : ListenerConfig) : (new cfg).Of cfg := ⟨rfl, rfl, rfl⟩

def ListenerSession.options (s : ListenerSession) : Bool × Bool × List Bytes :=
  (s.allowAll, s.allowRemoteCommand, s.baseCommand)

theorem ListenerSession.Of.congr {s s' : ListenerSession} (h : s.Of cfg) (heq : s'.options = s.options) : s'.Of cfg := by
  obtain ⟨hall, hrest⟩ := Prod.mk.inj heq
  obtain ⟨hremote, hbase⟩ := Prod.mk.inj hrest
  exact ⟨hall ▸ h.allowAll, hremote ▸ h.allowRemoteCommand, hbase ▸ h.baseCommand⟩

/-- The records of the listener go on as given, and the options of the session stay. -/
structure Records (l l' : Listener) (verified : List Bytes) (acceptedAfter : Option (List Bytes)) (starts : List Start) :
    Prop where
  options : l'.session.options = l.session.options
  verified : l'.verified = verified
  acceptedAfter : l'.acceptedAfter = acceptedAfter
  starts : l'.starts = starts

abbrev SameRecords (l l' : Listener) : Prop := Records l l' l.verified l.acceptedAfter l.starts

def Quiet (next : List Point) : Prop := ∀ u ∈ next, u.isStart = false ∧ ∀ hash, u ≠ .onIdentified hash

/-- What a section does to the records: nothing, or one move of the session on its way to the command. -/
inductive Effect (cfg : ListenerConfig) (l l' : Listener) : Point → List Point → Prop where
  | idle {t : Point} {next : List Point} (records : SameRecords l l') (start : t.isStart = false)
      (state : l'.session.state = l.session.state ∨ ¬l'.session.state.Early) (quiet : Quiet next) : Effect cfg l l' t next
  | identified {hash : Bytes} (records : Records l l' (hash :: l.verified) l.acceptedAfter l.starts)
      (state : l'.session.state = l.session.state) : Effect cfg l l' (.identified hash) [.onIdentified hash]
  | admitted {hash : Bytes} (records : SameRecords l l') (before : l.session.state.Early)
      (state : l'.session.state = .waitVers) (admits : cfg.Admits [hash]) : Effect cfg l l' (.onIdentified hash) []
  | accepted {m : Message} (records : Records l l' l.verified (some l.verified) l.starts)
      (before : l.session.state = .waitVers) (state : l'.session.state = .waitCmd) : Effect cfg l l' (.dispatch m) []
  | resolved {m : ExecuteCommandMessage} {commandLine : List Bytes} (records : SameRecords l l')
      (before : l.session.state = .waitCmd) (state : l'.session.state = .running)
      (command : l.session.resolveCommand m.commandLine = .ok commandLine) :
      Effect cfg l l' (.dispatch (.execute m)) [.start commandLine m]
  | started {m : ExecuteCommandMessage} {commandLine : List Bytes}
      (records : Records l l' l.verified l.acceptedAfter (l.starts ++ [⟨commandLine, l.remoteIdentity, m⟩]))
      (state : l'.session.state = l.session.state) : Effect cfg l l' (.start commandLine m) []

theorem Effect.options (h : Effect cfg l l' t next) : l'.session.options = l.session.options := by
  cases h with
  | idle records | identified records | admitted records | accepted records | resolved records | started records =>
    exact records.options

theorem not_early_error : ¬LsState.error.Early := by decide

theorem SameRecords.rfl : SameRecords l l := ⟨Eq.refl _, Eq.refl _, Eq.refl _, Eq.refl _⟩

theorem quiet_nil : Quiet [] := fun _ hu => (nomatch hu)

theorem quiet_singleton (hstart : t.isStart = false) (hidentified : ∀ hash, t ≠ .onIdentified hash) : Quiet [t] :=
  forall_mem_singleton.mpr ⟨hstart, hidentified⟩

theorem dropCommand_frame (l : Listener) : l.dropCommand.session = l.session ∧ SameRecords l l.dropCommand ∧
    l.dropCommand.remoteIdentity = l.remoteIdentity := by
  unfold dropCommand
  split
  · exact ⟨rfl, .rfl, rfl⟩
  · exact ⟨rfl, ⟨rfl, rfl, rfl, rfl⟩, rfl⟩

theorem dispatched_effect (m : Message) : Effect cfg l (l.dispatched m).1 (.dispatch m) (l.dispatched m).2 := by
  -- A failed call leaves the session in the error state.
  have hfailed : ∀ e, Effect cfg l ({ l with session := l.session.fail }.report e) (.dispatch m) [] :=
    fun e => .idle ⟨rfl, rfl, rfl, rfl⟩ rfl (.inr not_early_error) quiet_nil
  have hrefused : ∀ e, Effect cfg l ({ l with session := l.session }.report e) (.dispatch m) [] :=
    fun e => .idle ⟨rfl, rfl, rfl, rfl⟩ rfl (.inl rfl) quiet_nil
  cases m with
  | noop =>
    rw [dispatched]
    split_ifs
    · exact .idle ⟨rfl, rfl, rfl, rfl⟩ rfl (.inl rfl) quiet_nil
    · exact .idle .rfl rfl (.inl rfl) quiet_nil
  | error m | commandExited code => exact .idle .rfl rfl (.inl rfl) quiet_nil
  | versionInfo m =>
    rw [dispatched, ListenerSession.handleVersion]
    split_ifs with hident hvers hprotocol
    · exact .idle ⟨rfl, rfl, rfl, rfl⟩ rfl (.inl rfl) quiet_nil
    · exact hfailed _
    · exact hfailed _
    · exact .accepted ⟨rfl, rfl, rfl, rfl⟩ (not_not.mp hvers) rfl
  | execute m =>
    rw [dispatched, ListenerSession.handleExecute]
    split_ifs with hstate
    · exact hfailed _
    · cases hresolve : l.session.resolveCommand m.commandLine with
      | error e => exact hfailed e
      | ok commandLine => exact .resolved ⟨rfl, rfl, rfl, rfl⟩ (not_not.mp hstate) rfl hresolve
  | windowSize m =>
    rw [dispatched, ListenerSession.handleWindowSize]
    split_ifs
    · exact hrefused _
    · exact .idle ⟨rfl, rfl, rfl, rfl⟩ rfl (.inl rfl) quiet_nil
  | streamData m =>
    rw [dispatched, ListenerSession.handleStreamData]
    split_ifs
    · exact hrefused _
    · exact hfailed _
    · exact .idle ⟨rfl, rfl, rfl, rfl⟩ rfl (.inl rfl) (quiet_singleton rfl nofun)

theorem exec_effect (hof : l.session.Of cfg) (t : Point) (out : Outcome) :
    Effect cfg l (exec cfg l t out).1 t (exec cfg l t out).2 := by
  cases t with
  | identified hash => exact .identified ⟨rfl, rfl, rfl, rfl⟩ rfl
  | onIdentified hash =>
    rw [exec, ListenerSession.onInitiatorIdentified]
    split_ifs with hstate hallowed hchanged
    · exact .idle ⟨rfl, rfl, rfl, rfl⟩ rfl (.inl rfl) quiet_nil
    · exact .idle ⟨rfl, rfl, rfl, rfl⟩ rfl (.inr not_early_error) quiet_nil
    · exact .idle ⟨rfl, rfl, rfl, rfl⟩ rfl (.inr not_early_error) quiet_nil
    · rw [← not_or, not_not] at hstate
      refine .admitted ⟨rfl, rfl, rfl, rfl⟩ (hstate.imp_right .inl) rfl ?_
      rw [hof.allowAll, ListenerConfig.allowed] at hallowed
      by_cases hnoAuth : cfg.noAuth = true
      · exact .inl hnoAuth
      · simp only [hnoAuth, Bool.false_or, true_and, decide_eq_false_iff_not, not_not] at hallowed
        exact .inr ⟨hash, mem_singleton_self _, hallowed⟩
  | linkClosed =>
    exact .idle ⟨rfl, rfl, rfl, rfl⟩ rfl (.inr (of_decide_eq_false rfl)) (quiet_singleton rfl nofun)
  | closeCommand =>
    obtain ⟨hsession, hrecords, -⟩ := dropCommand_frame l
    exact .idle hrecords rfl (.inl (congrArg _ hsession)) quiet_nil
  | message m =>
    rw [exec]
    split_ifs
    · exact .idle .rfl rfl (.inl rfl) quiet_nil
    · exact .idle .rfl rfl (.inl rfl) (quiet_singleton rfl nofun)
  | dispatch m => exact dispatched_effect m
  | start commandLine m =>
    obtain ⟨hsession, hrecords, hidentity⟩ := dropCommand_frame l
    have hstarts : l.dropCommand.starts ++ [⟨commandLine, l.dropCommand.remoteIdentity, m⟩] =
        l.starts ++ [⟨commandLine, l.remoteIdentity, m⟩] := by rw [hrecords.starts, hidentity]
    rw [exec]
    cases out.startError with
    | none | some e =>
      exact .started ⟨hrecords.options, hrecords.verified, hrecords.acceptedAfter, hstarts⟩ (congrArg _ hsession)
  | findCommand m =>
    rw [exec]
    cases l.command with
    | none => exact .idle ⟨rfl, rfl, rfl, rfl⟩ rfl (.inl rfl) quiet_nil
    | some i => exact .idle .rfl rfl (.inl rfl) (quiet_singleton rfl nofun)
  | write i m =>
    rw [exec]
    cases l.commands[i]? with
    | none => exact .idle .rfl rfl (.inl rfl) quiet_nil
    | some ac =>
      dsimp only
      cases (ac.writeStdin m.data m.eof out.writeError out.closeError).2 with
      | none | some text => exact .idle ⟨rfl, rfl, rfl, rfl⟩ rfl (.inl rfl) quiet_nil

/-! ### The invariant -/

/-- How many calls of `startSessionCommand` there were, with those that threads are about to make. -/
def calls (c : Config Listener Point) : Nat := c.shared.starts.length + c.threads.countP Point.isStart

def Expects (cfg : ListenerConfig) (l : Listener) : Point → Prop
  | .onIdentified hash => hash ∈ l.verified
  | .start commandLine _ => cfg.noRemoteCmd = true → commandLine = cfg.baseCommand
  | _ => True

/-- No command is started early, and no second one later. -/
structure Sound (cfg : ListenerConfig) (c : Config Listener Point) : Prop where
  options : c.shared.session.Of cfg
  waitVers : c.shared.session.state = .waitVers → cfg.Admits c.shared.verified
  waitCmd : c.shared.session.state = .waitCmd → c.shared.acceptedAfter.isSome = true
  accepted : ∀ identities ∈ c.shared.acceptedAfter, cfg.Admits identities
  early : c.shared.session.state.Early → calls c = 0
  once : calls c ≤ 1
  started : 0 < calls c → c.shared.acceptedAfter.isSome = true
  commands : cfg.noRemoteCmd = true → ∀ start ∈ c.shared.starts, start.commandLine = cfg.baseCommand
  threads : ∀ t ∈ c.threads, Expects cfg c.shared t

theorem sound_new (cfg : ListenerConfig) : Sound cfg ⟨.new cfg, []⟩ where
  options := ListenerSession.of_new cfg
  waitVers h := by
    change (if cfg.noAuth then LsState.waitVers else .waitIdent) = .waitVers at h
    split_ifs at h with hnoAuth
    exact .inl hnoAuth
  waitCmd h := by
    change (if cfg.noAuth then LsState.waitVers else .waitIdent) = .waitCmd at h
    split_ifs at h
  accepted _ h := nomatch h
  early _ := rfl
  once := Nat.zero_le 1
  started h := (Nat.lt_irrefl 0 h).elim
  commands _ _ h := nomatch h
  threads _ h := nomatch h

theorem ListenerConfig.Admits.mono {ids ids' : List Bytes} (h : cfg.Admits ids) (hsub : ids ⊆ ids') : cfg.Admits ids' :=
  h.imp_right fun ⟨hash, hmem, hlist⟩ => ⟨hash, hsub hmem, hlist⟩

theorem Expects.mono (h : Expects cfg l t) (hsub : l.verified ⊆ l'.verified) : Expects cfg l' t := by
  cases t with
  | onIdentified hash => exact hsub h
  | _ => exact h

theorem Effect.verified_subset (h : Effect cfg l l' t next) : l.verified ⊆ l'.verified := by
  cases h with
  | idle records | identified records | admitted records | accepted records | resolved records | started records =>
    rw [records.verified]
    simp

theorem Quiet.countP (h : Quiet next) : next.countP Point.isStart = 0 :=
  countP_eq_zero.mpr fun u hu => by rw [(h u hu).1]; nofun

theorem Quiet.expects (h : Quiet next) (u : Point) (hu : u ∈ next) : Expects cfg l u := by
  cases u with
  | onIdentified hash => exact ((h _ hu).2 hash rfl).elim
  | start commandLine m => cases (h _ hu).1
  | _ => trivial

theorem resolveCommand_base {s : ListenerSession} {remoteCommand commandLine : List Bytes} (h : s.Of cfg)
    (hresolve : s.resolveCommand remoteCommand = .ok commandLine) (hno : cfg.noRemoteCmd = true) :
    commandLine = cfg.baseCommand := by
  have hallow : s.allowRemoteCommand = false := by rw [h.allowRemoteCommand, hno]; rfl
  unfold ListenerSession.resolveCommand at hresolve
  split_ifs at hresolve with hremote hempty hargs
  · cases hresolve
    exact h.baseCommand
  · exact absurd ⟨hempty, hallow⟩ hremote
  · exact absurd ⟨hempty, hallow⟩ hremote

variable {c : Config Listener Point}

/-- What a step keeps that resolves no command and accepts no version. -/
theorem Sound.carried {c' : Config Listener Point} (h : Sound cfg c) (hof : c'.shared.session.Of cfg)
    (hstate : c'.shared.session.state = c.shared.session.state ∨ ¬c'.shared.session.state.Early)
    (hverified : c.shared.verified ⊆ c'.shared.verified) (haccepted : c'.shared.acceptedAfter = c.shared.acceptedAfter)
    (hcalls : calls c' = calls c)
    (hcommands : cfg.noRemoteCmd = true → ∀ start ∈ c'.shared.starts, start.commandLine = cfg.baseCommand)
    (hthreads : ∀ t ∈ c'.threads, Expects cfg c'.shared t) : Sound cfg c' := by
  have hearly : c'.shared.session.state.Early → c'.shared.session.state = c.shared.session.state :=
    fun he => hstate.resolve_right (not_not_intro he)
  refine ⟨hof, fun hv => ?_, fun hv => ?_, ?_, fun he => ?_, hcalls ▸ h.once, ?_, hcommands, hthreads⟩
  · exact (h.waitVers (hearly (.inr (.inl hv)) ▸ hv)).mono hverified
  · rw [haccepted]
    exact h.waitCmd (hearly (.inr (.inr hv)) ▸ hv)
  · rw [haccepted]
    exact h.accepted
  · rw [hcalls]
    exact h.early (hearly he ▸ he)
  · rw [hcalls, haccepted]
    exact h.started

theorem Sound.start (h : Sound cfg c) (ht : t.isEntry = true) :
    Sound cfg { c with threads := t :: c.threads } := by
  have hstart : t.isStart = false := by cases t <;> first | rfl | cases ht
  have hcalls : calls { c with threads := t :: c.threads } = calls c := by
    rw [calls, calls, countP_cons_of_neg (by rw [hstart]; nofun)]
  refine h.carried h.options (.inl rfl) (Subset.refl _) rfl hcalls h.commands ?_
  refine forall_mem_cons.mpr ⟨?_, h.threads⟩
  cases t <;> trivial

theorem Sound.advance (h : Sound cfg c) (ht : t ∈ c.threads)
    (heffect : Effect cfg c.shared l' t next) : Sound cfg ⟨l', next ++ c.threads.erase t⟩ := by
  have hof := h.options.congr heffect.options
  have hsub := heffect.verified_subset
  have hthread := h.threads t ht
  have hothers : ∀ u ∈ c.threads.erase t, Expects cfg l' u := fun u hu =>
    (h.threads u (mem_of_mem_erase hu)).mono hsub
  have hcount : c.threads.countP Point.isStart =
      (c.threads.erase t).countP Point.isStart + if t.isStart then 1 else 0 := by
    rw [(perm_cons_erase ht).countP_eq, countP_cons]
  have hbefore : calls c = c.shared.starts.length +
      ((c.threads.erase t).countP Point.isStart + if t.isStart then 1 else 0) := by rw [calls, hcount]
  have hafter : calls ⟨l', next ++ c.threads.erase t⟩ =
      l'.starts.length + (next.countP Point.isStart + (c.threads.erase t).countP Point.isStart) := by
    rw [calls, countP_append]
  -- The calls are the same unless a command was resolved.
  have hsame : l'.starts = c.shared.starts → t.isStart = false → next.countP Point.isStart = 0 →
      calls ⟨l', next ++ c.threads.erase t⟩ = calls c := by
    intro hstarts hnot hnext
    rw [hafter, hbefore, hstarts, hnot, hnext, Nat.zero_add]
    rfl
  cases heffect with
  | idle records start state quiet =>
    exact h.carried hof state hsub records.acceptedAfter (hsame records.starts start quiet.countP)
      (records.starts ▸ h.commands) (forall_mem_append.mpr ⟨quiet.expects, hothers⟩)
  | identified records state =>
    refine h.carried hof (.inl state) hsub records.acceptedAfter (hsame records.starts rfl rfl)
      (records.starts ▸ h.commands) (forall_mem_append.mpr ⟨forall_mem_singleton.mpr ?_, hothers⟩)
    change _ ∈ l'.verified
    rw [records.verified]
    exact mem_cons_self
  | admitted records before state admits =>
    have hcalls := hsame records.starts rfl rfl
    refine ⟨hof, fun _ => ?_, fun hv => ?_, ?_, fun _ => hcalls.trans (h.early before), hcalls ▸ h.once, ?_, ?_, hothers⟩
    · rw [records.verified]
      exact admits.mono (cons_subset.mpr ⟨hthread, nil_subset _⟩)
    · cases state.symm.trans hv
    · rw [records.acceptedAfter]
      exact h.accepted
    · rw [hcalls, records.acceptedAfter]
      exact h.started
    · rw [records.starts]
      exact h.commands
  | accepted records before state =>
    have hcalls := hsame records.starts rfl rfl
    refine ⟨hof, fun hv => ?_, fun _ => ?_, ?_, fun _ => ?_, hcalls ▸ h.once, fun _ => ?_, ?_, hothers⟩
    · cases state.symm.trans hv
    · rw [records.acceptedAfter]
      rfl
    · rw [records.acceptedAfter]
      rintro _ ⟨⟩
      exact h.waitVers before
    · exact hcalls.trans (h.early (.inr (.inl before)))
    · rw [records.acceptedAfter]
      rfl
    · rw [records.starts]
      exact h.commands
  | @resolved m commandLine records before state command =>
    have hzero := h.early (.inr (.inr before))
    have hone : calls ⟨l', [.start commandLine m] ++ c.threads.erase (.dispatch (.execute m))⟩ = calls c + 1 := by
      rw [hafter, hbefore, records.starts]
      exact (congrArg _ (Nat.add_comm 1 _)).trans (Nat.add_assoc _ _ _).symm
    refine ⟨hof, fun hv => ?_, fun hv => ?_, ?_, fun he => ?_, ?_, fun _ => ?_, ?_, forall_mem_append.mpr ⟨?_, hothers⟩⟩
    · cases state.symm.trans hv
    · cases state.symm.trans hv
    · rw [records.acceptedAfter]
      exact h.accepted
    · rw [state] at he
      exact absurd he (by decide)
    · rw [hone, hzero]
    · rw [records.acceptedAfter]
      exact h.waitCmd before
    · rw [records.starts]
      exact h.commands
    · exact forall_mem_singleton.mpr fun hno => resolveCommand_base h.options command hno
  | @started m commandLine records state =>
    have hcalls : calls ⟨l', [] ++ c.threads.erase (.start commandLine m)⟩ = calls c := by
      rw [hafter, hbefore, records.starts, length_append]
      exact (Nat.add_assoc _ _ _).trans (congrArg _ (by rw [countP_nil, Nat.zero_add]; exact Nat.add_comm 1 _))
    refine h.carried hof (.inl state) hsub records.acceptedAfter hcalls (fun hno => ?_) hothers
    rw [records.starts]
    exact forall_mem_append.mpr ⟨h.commands hno, forall_mem_singleton.mpr (hthread hno)⟩

theorem run_sound {as : List (Action Point Outcome)}
    (h : (listenerSystem cfg).run ⟨.new cfg, []⟩ as = some c) : Sound cfg c := by
  refine Transitions.Reachable.invariant ⟨as, h⟩ (Sound cfg) (sound_new cfg) fun c a c' hc hstep => ?_
  cases a with
  | start t =>
    obtain ⟨ht, rfl⟩ := System.step_start.mp hstep
    exact hc.start ht
  | advance t out =>
    obtain ⟨ht, l', next, hexec, rfl⟩ := System.step_advance.mp hstep
    have heffect := exec_effect hc.options t out
    rw [some.inj hexec] at heffect
    exact hc.advance ht heffect

/-- A command is started at most once, only without authentication or after an identity on the list was verified before
    the version was accepted, and it is the listener's own when remote commands are disabled. -/
theorem startSessionCommand_authorised (cfg : ListenerConfig) (as : List (Action Point Outcome))
    (c : Config Listener Point) (h : (listenerSystem cfg).run ⟨.new cfg, []⟩ as = some c) : c.shared.starts.length ≤ 1 ∧
    (c.shared.starts ≠ [] → cfg.noAuth = true ∨
      ∃ identities hash, c.shared.acceptedAfter = some identities ∧ hash ∈ identities ∧ hash ∈ cfg.allowedList) ∧
    (cfg.noRemoteCmd = true → ∀ start ∈ c.shared.starts, start.commandLine = cfg.baseCommand) := by
  have hsound := run_sound h
  have hle : c.shared.starts.length ≤ calls c := Nat.le_add_right _ _
  refine ⟨hle.trans hsound.once, fun hne => ?_, hsound.commands⟩
  obtain ⟨identities, haccepted⟩ := Option.isSome_iff_exists.mp
    (hsound.started ((List.length_pos_iff.mpr hne).trans_le hle))
  rcases hsound.accepted identities haccepted with hnoAuth | ⟨hash, hmem, hlist⟩
  · exact .inl hnoAuth
  · exact .inr ⟨identities, hash, haccepted, hmem, hlist⟩

/-! ### A session -/

namespace Sample

def listenerConfig : ListenerConfig where
  noAuth := false
  allowedList := [[1]]
  noRemoteCmd := true
  remoteAsArgs := false
  commandLine := [[0x73, 0x68]]
  softwareVersion := []
  loginShell := [0x6c, 0x73]

def version : Message := .versionInfo ⟨[], protocolVersion⟩

def execute : ExecuteCommandMessage where
  commandLine := []
  pipeStdin := true
  pipeStdout := true
  pipeStderr := true
  tcFlags := .nil
  term := none
  rows := none
  cols := none
  hpix := none
  vpix := none

def listenerRun : List (Action Point Outcome) :=
  [.start (.message version), .advance (.message version) {}, .advance (.dispatch version) {},
    .start (.identified [1]), .advance (.identified [1]) {}, .advance (.onIdentified [1]) {},
    .start (.message version), .advance (.message version) {}, .advance (.dispatch version) {},
    .start (.message (.execute execute)), .advance (.message (.execute execute)) {},
    .advance (.dispatch (.execute execute)) {}, .advance (.start [[0x73, 0x68]] execute) {}]

theorem session_authorised : ∃ c, (listenerSystem listenerConfig).run ⟨.new listenerConfig, []⟩ listenerRun = some c ∧
    c.shared.starts.length = 1 ∧ ∃ identities hash, c.shared.acceptedAfter = some identities ∧ hash ∈ identities ∧
      hash ∈ listenerConfig.allowedList := by
  obtain ⟨c, hrun, hone⟩ : ∃ c ∈ (listenerSystem listenerConfig).run ⟨.new listenerConfig, []⟩ listenerRun,
      c.shared.starts.length = 1 := by decide +kernel
  have hne : c.shared.starts ≠ [] := by
    intro hnil
    rw [hnil] at hone
    cases hone
  have hauthorised := startSessionCommand_authorised listenerConfig listenerRun c hrun
  exact ⟨c, hrun, hone, (hauthorised.2.1 hne).resolve_left nofun⟩

end Sample

end Reticulum.Gornsh
