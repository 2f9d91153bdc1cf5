import Reticulum.Lxmf.Locking
import Reticulum.Lxmf.Outbound

/-! # The callbacks of messages and the router's lock (lxmf/router.go)

Callbacks are called by the goroutine that runs a function of the router, most of them after it has released `r.mu`. A
resource that is cancelled calls back on a goroutine of its own. -/

namespace Reticulum.Lxmf
open Locks

inductive RouterEvent where
  | lock
  | unlock
  | callback (message : Nat) (callback : Callback)
deriving DecidableEq, Repr

/-- The callback calls `HandleOutbound` or `CancelOutbound`, which take `r.mu`. -/
def RouterEvent.ops : RouterEvent → List (Op Mutex)
  | lock => [.lock .router]
  | unlock => [.unlock .router]
  | callback .. => within .router

namespace OutboundRouter
open RouterEvent

def notices (fate : Fate) (fates : List (Nat × Fate)) : List RouterEvent :=
  (fates.filter (·.2 = fate)).map fun x => callback x.1 .failed

def events (r : OutboundRouter) : Action → List RouterEvent
  -- The loop calls the callbacks of cancelled messages itself, and leaves those of failed messages for later.
  | .processOutbound facts =>
    lock :: (notices .notified (r.fates facts) ++ unlock :: notices .failed (r.fates facts))
  | .startStamps =>
    match r.pendingDeferredStamps with
    | [] => [lock, unlock]
    | i :: _ =>
      if r.messages[i]?.map (·.state) = some .cancelled then
        [lock, unlock, lock, unlock, callback i .failed, lock, unlock]
      else [lock, unlock]
  -- Before this, the cancel function of the stamp is registered and unregistered.
  | .finishStamps f =>
    match r.stamping with
    | none => []
    | some i =>
      [lock, unlock, lock, unlock, lock, unlock] ++
        (if r.messages[i]?.map (stampResult · f) = some .made then [] else [callback i .failed]) ++ [lock, unlock]
  | .delivered receipt => [lock, unlock, callback receipt.message .delivery]
  | .concluded resource complete =>
    [lock, unlock] ++ if resource.propagated && complete then [callback resource.message .delivery] else []
  | .tick _ => []
  | _ => [lock, unlock]

end OutboundRouter
end Reticulum.Lxmf
