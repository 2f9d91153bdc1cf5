import Reticulum.Lxmf.Outbound

/-! # The links for direct resources (lxmf/router.go)

`sendMessageResourceLocked` opens a link to the destination and sets a flag. A link is established or closed on its own,
and each of its callbacks runs on a goroutine of its own, some time after. -/

namespace Reticulum.Lxmf

structure ResourceLink where
  destinationHash : Bytes
  status : LinkStatus := .pending
  /-- Whether the callback has been started and has not run yet. -/
  establishedDue : Bool := false
  closedDue : Bool := false
deriving DecidableEq, Repr

structure ResourceLinks where
  router : OutboundRouter
  links : List ResourceLink := []

namespace ResourceLinks

inductive Action where
  /-- A step of the router, apart from the callbacks of these links. -/
  | router (a : OutboundRouter.Action)
  /-- The proof of the link's destination arrives. -/
  | establish (n : Nat)
  /-- The link times out or is torn down. -/
  | close (n : Nat)
  | establishedCallback (n : Nat)
  | closedCallback (n : Nat)

def opened (r r' : OutboundRouter) : List ResourceLink :=
  (r'.resourceLinkPending.take (r'.resourceLinkPending.length - r.resourceLinkPending.length)).map
    fun destinationHash => { destinationHash }

def isLinkCallback : OutboundRouter.Action → Bool
  | .resourceLinkEstablished _ | .resourceLinkClosed _ => true
  | _ => false

def step (s : ResourceLinks) : Action → Option ResourceLinks
  | .router a =>
    if isLinkCallback a then none else (s.router.step a).map fun r => ⟨r, s.links ++ opened s.router r⟩
  | .establish n =>
    match s.links[n]? with
    | none => none
    | some link =>
      if link.status = .pending then
        some { s with links := s.links.set n { link with status := .active, establishedDue := true } }
      else none
  | .close n =>
    match s.links[n]? with
    | none => none
    | some link =>
      if link.status = .closed then none
      else some { s with links := s.links.set n { link with status := .closed, closedDue := true } }
  | .establishedCallback n =>
    match s.links[n]? with
    | none => none
    | some link =>
      if link.establishedDue then
        (s.router.step (.resourceLinkEstablished link.destinationHash)).map fun r =>
          ⟨r, s.links.set n { link with establishedDue := false }⟩
      else none
  | .closedCallback n =>
    match s.links[n]? with
    | none => none
    | some link =>
      if link.closedDue then
        (s.router.step (.resourceLinkClosed link.destinationHash)).map fun r =>
          ⟨r, s.links.set n { link with closedDue := false }⟩
      else none

end ResourceLinks
end Reticulum.Lxmf
