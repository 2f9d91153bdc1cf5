import Reticulum.Lxmf.ResourceLinks
import Reticulum.Theorems.Lxmf.Outcome

/-! # Whether a destination is blocked by a link that has failed

The flag of a destination is cleared by the callback for an established link only. -/

namespace Reticulum.Lxmf

open Transitions List Option

namespace OutboundRouter

variable {r r' : OutboundRouter} {i : Nat}

/-! ### Flags -/

theorem step_flags {a : Action} (h : WellFormed r) (hstep : r.step a = some r')
    (ha : ∀ destinationHash, a ≠ .resourceLinkEstablished destinationHash) : FlagsRaised r r' := by
  by_cases hpass : ∃ facts, a = .processOutbound facts
  · obtain ⟨facts, rfl⟩ := hpass
    cases hstep
    exact (processOutbound_passed h facts).flags
  · exact .of_eq ((step_still hstep (not_exists.mp hpass)).2 ha)

end OutboundRouter

def ResourceLink.Clears (link : ResourceLink) : Prop := link.status = .pending ∨ link.establishedDue = true

namespace ResourceLinks

open OutboundRouter (WellFormed FlagsRaised)

variable {s s' : ResourceLinks} {n k : Nat} {link link' : ResourceLink} {h : Bytes}

/-! ### What the links have to do with the flags -/

def Blocked (s : ResourceLinks) (h : Bytes) : Prop :=
  h ∈ s.router.resourceLinkPending ∧ ∀ link ∈ s.links, link.destinationHash = h → ¬link.Clears

/-- A link that will clear a flag is the only one for it, and the flag is set. -/
structure Tracked (s : ResourceLinks) : Prop where
  wellFormed : WellFormed s.router
  due : ∀ link ∈ s.links, link.establishedDue = true → link.status ≠ .pending
  flagged : ∀ link ∈ s.links, link.Clears → link.destinationHash ∈ s.router.resourceLinkPending
  unique : ∀ (n k : Nat) (link link' : ResourceLink), s.links[n]? = some link → s.links[k]? = some link' →
    link.Clears → link'.Clears → link.destinationHash = link'.destinationHash → n = k

def ClosesPending (s : ResourceLinks) : Action → Prop
  | .close n => ∃ link, s.links[n]? = some link ∧ link.status = .pending
  | _ => False

def Quiescent (s : ResourceLinks) : Prop :=
  ∀ link ∈ s.links, link.establishedDue = false ∧ link.closedDue = false

theorem mem_set_iff {links : List ResourceLink} {x : ResourceLink} (hn : links[n]? = some link) :
    x ∈ links.set n link' ↔ x = link' ∨ ∃ k, k ≠ n ∧ links[k]? = some x := by
  rw [mem_iff_getElem?]
  constructor
  · rintro ⟨k, hk⟩
    by_cases hkn : n = k
    · subst hkn
      rw [List.getElem?_set_self (List.getElem?_eq_some_iff.mp hn).1] at hk
      exact .inl (some.inj hk).symm
    · rw [getElem?_set_ne hkn] at hk
      exact .inr ⟨k, Ne.symm hkn, hk⟩
  · rintro (rfl | ⟨k, hkn, hk⟩)
    · exact ⟨n, List.getElem?_set_self (List.getElem?_eq_some_iff.mp hn).1⟩
    · exact ⟨k, by rw [getElem?_set_ne hkn.symm, hk]⟩

/-! ### Steps -/

section Set
variable {r' : OutboundRouter}

theorem Tracked.set (ht : s.Tracked) (hn : s.links[n]? = some link) (hwell : WellFormed r')
    (hhash : link'.destinationHash = link.destinationHash) (hclears : link'.Clears → link.Clears)
    (hdue : link'.establishedDue = true → link'.status ≠ .pending)
    (hflags : ∀ x : ResourceLink, x.Clears → x = link' ∨ (∃ k, k ≠ n ∧ s.links[k]? = some x) →
      x.destinationHash ∈ s.router.resourceLinkPending → x.destinationHash ∈ r'.resourceLinkPending) :
    Tracked ⟨r', s.links.set n link'⟩ where
  wellFormed := hwell
  due := by
    intro x hx hx'
    rcases (mem_set_iff hn).mp hx with rfl | ⟨k, -, hk⟩
    · exact hdue hx'
    · exact ht.due x (mem_of_getElem? hk) hx'
  flagged := by
    intro x hx hx'
    have hcases := (mem_set_iff hn).mp hx
    refine hflags x hx' hcases ?_
    rcases hcases with rfl | ⟨k, -, hk⟩
    · rw [hhash]
      exact ht.flagged link (mem_of_getElem? hn) (hclears hx')
    · exact ht.flagged x (mem_of_getElem? hk) hx'
  unique := by
    -- The links in the two places had the same hashes before, and would clear flags.
    have hbefore : ∀ (k : Nat) (x : ResourceLink), (s.links.set n link')[k]? = some x → x.Clears →
        ∃ y : ResourceLink, s.links[k]? = some y ∧ y.Clears ∧ y.destinationHash = x.destinationHash := by
      intro k x hk hx
      by_cases hkn : n = k
      · subst hkn
        rw [List.getElem?_set_self (List.getElem?_eq_some_iff.mp hn).1] at hk
        cases hk
        exact ⟨link, hn, hclears hx, hhash.symm⟩
      · rw [getElem?_set_ne hkn] at hk
        exact ⟨x, hk, hx, rfl⟩
    intro k₁ k₂ x₁ x₂ h₁ h₂ hx₁ hx₂ heq
    obtain ⟨y₁, hy₁, hc₁, heq₁⟩ := hbefore k₁ x₁ h₁ hx₁
    obtain ⟨y₂, hy₂, hc₂, heq₂⟩ := hbefore k₂ x₂ h₂ hx₂
    exact ht.unique k₁ k₂ y₁ y₂ hy₁ hy₂ hc₁ hc₂ (by rw [heq₁, heq₂, heq])

theorem blocked_set_iff (ht : s.Tracked) (hn : s.links[n]? = some link) (hclears : link'.Clears → link.Clears)
    (hhash : link'.destinationHash = link.destinationHash)
    (hflags : r'.resourceLinkPending = s.router.resourceLinkPending) : Blocked ⟨r', s.links.set n link'⟩ h ↔
      s.Blocked h ∨ (h = link.destinationHash ∧ link.Clears ∧ ¬link'.Clears) := by
  constructor
  · rintro ⟨hflag, hlinks⟩
    have hlinks : ∀ x, x = link' ∨ (∃ k, k ≠ n ∧ s.links[k]? = some x) → x.destinationHash = h → ¬x.Clears :=
      fun x hx => hlinks x ((mem_set_iff hn).mpr hx)
    by_cases hself : h = link.destinationHash ∧ link.Clears
    · exact .inr ⟨hself.1, hself.2, hlinks link' (.inl rfl) (hhash.trans hself.1.symm)⟩
    · refine .inl ⟨hflags ▸ hflag, fun x hx hxh hxc => ?_⟩
      obtain ⟨k, hk⟩ := mem_iff_getElem?.mp hx
      by_cases hkn : k = n
      · rw [hkn, hn] at hk
        cases hk
        exact hself ⟨hxh.symm, hxc⟩
      · exact hlinks x (.inr ⟨k, hkn, hk⟩) hxh hxc
  · rintro (⟨hflag, hlinks⟩ | ⟨rfl, hclear, hnot⟩)
    · refine ⟨hflags.symm ▸ hflag, fun x hx hxh hxc => ?_⟩
      rcases (mem_set_iff hn).mp hx with rfl | ⟨k, -, hk⟩
      · exact hlinks link (mem_of_getElem? hn) (hhash.symm.trans hxh) (hclears hxc)
      · exact hlinks x (mem_of_getElem? hk) hxh hxc
    · refine ⟨hflags.symm ▸ ht.flagged link (mem_of_getElem? hn) hclear, fun x hx hxh hxc => ?_⟩
      rcases (mem_set_iff hn).mp hx with rfl | ⟨k, hkn, hk⟩
      · exact hnot hxc
      · exact hkn (ht.unique k n x link hk hn hxc hclear hxh)

theorem exists_blocked_set_iff (ht : s.Tracked) (hn : s.links[n]? = some link) (hclears : link'.Clears → link.Clears)
    (hhash : link'.destinationHash = link.destinationHash)
    (hflags : r'.resourceLinkPending = s.router.resourceLinkPending) :
    (∃ h, Blocked ⟨r', s.links.set n link'⟩ h) ↔ (∃ h, s.Blocked h) ∨ (link.Clears ∧ ¬link'.Clears) := by
  simp only [blocked_set_iff ht hn hclears hhash hflags, exists_or, exists_eq_left]

end Set

theorem router_tracked {r' : OutboundRouter} (ht : s.Tracked) (hwell : WellFormed r') (hflags : FlagsRaised s.router r') :
    Tracked ⟨r', s.links ++ opened s.router r'⟩ ∧
      ∀ h, Blocked ⟨r', s.links ++ opened s.router r'⟩ h ↔ s.Blocked h := by
  obtain ⟨raised, hr', hnodup, hnew⟩ := hflags
  rw [opened, hr', length_append, Nat.add_sub_cancel, take_left]
  have hmem : ∀ x, x ∈ s.links ++ raised.map (fun destinationHash => ({ destinationHash } : ResourceLink)) ↔
      x ∈ s.links ∨ ∃ h ∈ raised, x = { destinationHash := h } := by
    intro x
    rw [List.mem_append, List.mem_map]
    simp only [eq_comm]
  refine ⟨⟨hwell, fun x hx hdue => ?_, fun x hx hclears => ?_, ?_⟩, fun h => ?_⟩
  · rcases (hmem x).mp hx with hx | ⟨h, -, rfl⟩
    · exact ht.due x hx hdue
    · cases hdue
  · rw [hr', mem_append]
    rcases (hmem x).mp hx with hx | ⟨h, hh, rfl⟩
    · exact .inr (ht.flagged x hx hclears)
    · exact .inl hh
  · -- A new link has a hash that no old one has which clears a flag, and the new hashes are different.
    have hold : ∀ (n : Nat) (x : ResourceLink), (s.links ++ raised.map fun h => { destinationHash := h })[n]? = some x →
        (n < s.links.length ∧ s.links[n]? = some x) ∨
          (s.links.length ≤ n ∧ raised[n - s.links.length]? = some x.destinationHash) := by
      intro n x hx
      rcases Nat.lt_or_ge n s.links.length with hlt | hle
      · rw [getElem?_append_left hlt] at hx
        exact .inl ⟨hlt, hx⟩
      · rw [getElem?_append_right hle, getElem?_map, map_eq_some_iff] at hx
        obtain ⟨h, hh, rfl⟩ := hx
        exact .inr ⟨hle, hh⟩
    have hapart : ∀ (x y : ResourceLink) (n : Nat), x ∈ s.links → x.Clears → raised[n]? = some y.destinationHash →
        x.destinationHash ≠ y.destinationHash := by
      intro x y n hx hclears hy heq
      exact hnew _ (mem_of_getElem? hy) (heq ▸ ht.flagged x hx hclears)
    intro n k x y hx hy hcx hcy heq
    rcases hold n x hx with ⟨-, hx⟩ | ⟨hn, hx⟩ <;> rcases hold k y hy with ⟨-, hy⟩ | ⟨hk, hy⟩
    · exact ht.unique n k x y hx hy hcx hcy heq
    · exact absurd heq (hapart x y _ (mem_of_getElem? hx) hcx hy)
    · exact absurd heq.symm (hapart y x _ (mem_of_getElem? hy) hcy hx)
    · have hsub : n - s.links.length = k - s.links.length :=
        (List.getElem?_inj (List.getElem?_eq_some_iff.mp hx).1 hnodup).mp (by rw [hx, hy, heq])
      omega
  · constructor
    · rintro ⟨hflag, hlinks⟩
      rw [hr', mem_append] at hflag
      refine ⟨hflag.resolve_left fun hraised => ?_, fun x hx => hlinks x ((hmem x).mpr (.inl hx))⟩
      exact hlinks _ ((hmem _).mpr (.inr ⟨h, hraised, rfl⟩)) rfl (.inl rfl)
    · rintro ⟨hflag, hlinks⟩
      refine ⟨hr' ▸ mem_append_right _ hflag, fun x hx hxh => ?_⟩
      rcases (hmem x).mp hx with hx | ⟨h', hraised, rfl⟩
      · exact hlinks x hx hxh
      · obtain rfl : h' = h := hxh
        exact absurd hflag (hnew h' hraised)

theorem established_tracked (ht : s.Tracked) (hn : s.links[n]? = some link) (hdue : link.establishedDue = true)
    {r' : OutboundRouter} (hr' : s.router.step (.resourceLinkEstablished link.destinationHash) = some r') :
    Tracked ⟨r', s.links.set n { link with establishedDue := false }⟩ ∧
      ∀ h, Blocked ⟨r', s.links.set n { link with establishedDue := false }⟩ h ↔ s.Blocked h := by
  have hwell : WellFormed r' := OutboundRouter.step_wellFormed ht.wellFormed hr'
  have hmem : link ∈ s.links := mem_of_getElem? hn
  have hnot : ¬({ link with establishedDue := false } : ResourceLink).Clears := by
    rintro (hpending | hfalse)
    · exact ht.due link hmem hdue hpending
    · cases hfalse
  cases hr'
  have hflag : ∀ h, h ∈ s.router.resourceLinkPending.filter (· ≠ link.destinationHash) ↔
      h ∈ s.router.resourceLinkPending ∧ h ≠ link.destinationHash := by
    intro h
    rw [mem_filter, decide_eq_true_eq]
  refine ⟨ht.set hn hwell rfl (fun h => absurd h hnot) (fun h => by cases h) fun x hx hcases hxflag => ?_, fun h => ?_⟩
  · rcases hcases with rfl | ⟨k, hkn, hk⟩
    · exact absurd hx hnot
    · exact (hflag _).mpr ⟨hxflag, fun heq => hkn (ht.unique k n x link hk hn hx (.inr hdue) heq)⟩
  · constructor
    · rintro ⟨hh, hlinks⟩
      obtain ⟨hh, hne⟩ := (hflag h).mp hh
      refine ⟨hh, fun x hx hxh => ?_⟩
      obtain ⟨k, hk⟩ := mem_iff_getElem?.mp hx
      by_cases hkn : k = n
      · rw [hkn, hn] at hk
        cases hk
        exact absurd hxh.symm hne
      · exact hlinks x ((mem_set_iff hn).mpr (.inr ⟨k, hkn, hk⟩)) hxh
    · rintro ⟨hh, hlinks⟩
      refine ⟨(hflag h).mpr ⟨hh, fun heq => hlinks link hmem heq.symm (.inr hdue)⟩, fun x hx hxh => ?_⟩
      rcases (mem_set_iff hn).mp hx with rfl | ⟨k, -, hk⟩
      · exact hnot
      · exact hlinks x (mem_of_getElem? hk) hxh

theorem exists_link {f : ResourceLink → Option ResourceLinks} (h : (match s.links[n]? with
    | none => none | some link => f link) = some s') : ∃ link, s.links[n]? = some link ∧ f link = some s' := by
  split at h
  · cases h
  · exact ⟨_, by assumption, h⟩

/-- A destination is blocked just when it was before or the link that would clear its flag was closed. -/
theorem step_tracked {a : Action} (ht : s.Tracked) (hstep : s.step a = some s') :
    s'.Tracked ∧ ((∃ h, s'.Blocked h) ↔ (∃ h, s.Blocked h) ∨ s.ClosesPending a) := by
  cases a with
  | router a =>
    obtain ⟨ha, hstep⟩ := ite_none_left_eq_some.mp hstep
    obtain ⟨r', hr', rfl⟩ := map_eq_some_iff.mp hstep
    have hwell : WellFormed r' := OutboundRouter.step_wellFormed ht.wellFormed hr'
    have hflags := OutboundRouter.step_flags ht.wellFormed hr' (by rintro h rfl; exact ha rfl)
    obtain ⟨htracked, hblocked⟩ := router_tracked ht hwell hflags
    exact ⟨htracked, (exists_congr hblocked).trans (or_iff_left id).symm⟩
  | establish n =>
    obtain ⟨link, hn, hstep⟩ := exists_link hstep
    obtain ⟨hpending, ⟨⟩⟩ := ite_none_right_eq_some.mp hstep
    -- An established link still has to clear the flag.
    have hclears : ({ link with status := .active, establishedDue := true } : ResourceLink).Clears → link.Clears :=
      fun _ => .inl hpending
    refine ⟨ht.set hn ht.wellFormed rfl hclears (fun _ => LinkStatus.noConfusion) fun _ _ _ => id, ?_⟩
    rw [exists_blocked_set_iff ht hn hclears rfl rfl]
    exact or_congr_right ⟨fun h => h.2 (.inr rfl), False.elim⟩
  | close n =>
    obtain ⟨link, hn, hstep⟩ := exists_link hstep
    obtain ⟨-, ⟨⟩⟩ := ite_none_left_eq_some.mp hstep
    have hclears : ∀ hc : ({ link with status := .closed, closedDue := true } : ResourceLink).Clears, link.Clears := by
      rintro (h | h)
      · cases h
      · exact .inr h
    refine ⟨ht.set hn ht.wellFormed rfl hclears (fun _ => LinkStatus.noConfusion) fun _ _ _ => id, ?_⟩
    rw [exists_blocked_set_iff ht hn hclears rfl rfl]
    refine or_congr_right ⟨?_, ?_⟩
    · rintro ⟨hpending | hdue, hnot⟩
      · exact ⟨link, hn, hpending⟩
      · exact absurd (.inr hdue) hnot
    · rintro ⟨link', hn', hpending⟩
      obtain rfl := some.inj (hn.symm.trans hn')
      refine ⟨.inl hpending, ?_⟩
      rintro (h | h)
      · cases h
      · exact ht.due link (mem_of_getElem? hn) h hpending
  | establishedCallback n =>
    obtain ⟨link, hn, hstep⟩ := exists_link hstep
    obtain ⟨hdue, hstep⟩ := ite_none_right_eq_some.mp hstep
    obtain ⟨r', hr', rfl⟩ := map_eq_some_iff.mp hstep
    obtain ⟨htracked, hblocked⟩ := established_tracked ht hn hdue hr'
    exact ⟨htracked, (exists_congr hblocked).trans (or_iff_left id).symm⟩
  | closedCallback n =>
    obtain ⟨link, hn, hstep⟩ := exists_link hstep
    obtain ⟨-, hstep⟩ := ite_none_right_eq_some.mp hstep
    obtain ⟨r', hr', rfl⟩ := map_eq_some_iff.mp hstep
    have hwell : WellFormed r' := OutboundRouter.step_wellFormed ht.wellFormed hr'
    have hflags : r'.resourceLinkPending = s.router.resourceLinkPending := by
      cases hr'
      rfl
    refine ⟨ht.set hn hwell rfl id (ht.due link (mem_of_getElem? hn)) fun _ _ _ hx => hflags ▸ hx, ?_⟩
    have hclears : ({ link with closedDue := false } : ResourceLink).Clears → link.Clears := id
    rw [exists_blocked_set_iff ht hn hclears rfl hflags]
    exact or_congr_right ⟨fun h => h.2 h.1, False.elim⟩

/-! ### Runs -/

def start (now : Time) : ResourceLinks := ⟨OutboundRouter.start now, []⟩

theorem start_tracked {now : Time} : (start now).Tracked :=
  ⟨OutboundRouter.start_wellFormed, fun _ h => absurd h not_mem_nil,
    fun _ h => absurd h not_mem_nil, fun _ _ _ _ h => by cases h⟩

/-- Once all callbacks have run, flags are those of pending links just when no link was closed unestablished. -/
theorem flags_pending_iff {now : Time} {as : List Action} (hrun : run step (start now) as = some s)
    (hquiet : s.Quiescent) :
    (∀ h ∈ s.router.resourceLinkPending, ∃ link ∈ s.links, link.destinationHash = h ∧ link.status = .pending) ↔
      ¬Happens step ClosesPending (start now) as := by
  have hblocked := run_iff_happens Tracked (fun s => ∃ h, s.Blocked h) (fun _ _ _ ht hs => (step_tracked ht hs).1)
      (fun _ _ _ ht hs => (step_tracked ht hs).2) as start_tracked hrun
  have hstart : ¬∃ h, (start now).Blocked h := fun ⟨h, hh⟩ => absurd hh.1 List.not_mem_nil
  rw [← hblocked.trans (or_iff_right hstart), not_exists]
  refine forall_congr' fun h => ?_
  rw [Blocked, not_and]
  refine imp_congr_right fun _ => ?_
  push Not
  refine exists_congr fun link => and_congr_right fun hlink => and_congr_right fun _ => ?_
  rw [ResourceLink.Clears, (hquiet link hlink).1]
  exact (or_iff_left Bool.false_ne_true).symm

namespace Sample

def message : OutboundMessage :=
  { messageID := [1], destinationHash := [2], desiredMethod := some .direct, packedLength := 1000 }

def opening : List Action :=
  [.router (.handleOutbound message {}), .router (.processOutbound fun _ => {}), .router (.processOutbound fun _ => {})]

def established : List Action := opening ++ [.establish 0, .establishedCallback 0]

/-- The link is closed before it is established; later passes find the flag set. -/
def failed : List Action :=
  opening ++ [.close 0, .closedCallback 0, .router (.tick (2 * deliveryRetryWait)), .router (.processOutbound fun _ => {})]

theorem established_flags : ∃ s, run step (start 0) established = some s ∧
    ∀ h ∈ s.router.resourceLinkPending, ∃ link ∈ s.links, link.destinationHash = h ∧ link.status = .pending := by
  obtain ⟨s, hrun, hlinks⟩ : ∃ s, run step (start 0) established = some s ∧
      s.links = [{ destinationHash := [2], status := .active }] := ⟨_, rfl, rfl⟩
  refine ⟨s, hrun, (flags_pending_iff hrun ?_).mpr ?_⟩
  · intro link hlink
    obtain rfl := List.mem_singleton.mp (hlinks ▸ hlink)
    exact ⟨rfl, rfl⟩
  · simp [established, opening, Happens, ClosesPending]

theorem failed_flags : ∃ s, run step (start 0) failed = some s ∧ s.Quiescent ∧
    s.router.resourceLinkPending = [[2]] ∧ s.links = [{ destinationHash := [2], status := .closed }] ∧
      s.router.resources = [] := by
  refine ⟨_, rfl, ?_, rfl, rfl, rfl⟩
  intro link hlink
  obtain rfl := List.mem_singleton.mp hlink
  exact ⟨rfl, rfl⟩

end Sample

end ResourceLinks
end Reticulum.Lxmf
