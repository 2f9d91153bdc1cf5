import Mathlib.Data.List.FinRange
import Reticulum.Threads

/-! The inbound queues of the transport (rns/inbound-queues.go): a bounded queue for each traffic class. A getter that
finds nothing waits for a channel that the next successful `Put` closes and replaces. Each section under the lock is one
step. -/

namespace Reticulum

abbrev numTrafficClasses : Nat := 4

abbrev TrafficClass := Fin numTrafficClasses

/-- An item that a getter has returned, and the class that it was taken from. -/
structure Returned (α : Type) where
  getter : Nat
  trafficClass : TrafficClass
  item : α
deriving DecidableEq, Repr

/-- The queues, with the items accepted, the valid calls of `Put` and what was returned; `notify` is the last channel. -/
structure InboundQueues (α : Type) where
  sizes : TrafficClass → Int
  queues : TrafficClass → List α := fun _ => []
  dropped : TrafficClass → Nat := fun _ => 0
  notify : Nat := 0
  accepted : TrafficClass → List α := fun _ => []
  puts : TrafficClass → Nat := fun _ => 0
  returned : List (Returned α) := []

/-- The errors of `Put`. -/
inductive InboundQueueError where
  | full
  | invalidTrafficClass
deriving DecidableEq, Repr

namespace InboundQueues

variable {α : Type} (q : InboundQueues α)

def Closed (ch : Nat) : Prop := ch < q.notify

instance (ch : Nat) : Decidable (q.Closed ch) := inferInstanceAs (Decidable (ch < q.notify))

def drop (k : TrafficClass) : InboundQueues α :=
  { q with
    dropped := Function.update q.dropped k (q.dropped k + 1)
    puts := Function.update q.puts k (q.puts k + 1) }

def accept (k : TrafficClass) (item : α) : InboundQueues α :=
  { q with
    queues := Function.update q.queues k (q.queues k ++ [item])
    notify := q.notify + 1
    accepted := Function.update q.accepted k (q.accepted k ++ [item])
    puts := Function.update q.puts k (q.puts k + 1) }

def put (trafficClass : Int) (item : α) : InboundQueues α × Option InboundQueueError :=
  if h : 0 ≤ trafficClass ∧ trafficClass < numTrafficClasses then
    let k : TrafficClass := ⟨trafficClass.toNat, by omega⟩
    if q.sizes k ≤ (q.queues k).length then (q.drop k, some .full) else (q.accept k item, none)
  else (q, some .invalidTrafficClass)

def firstQueued : Option TrafficClass := (List.finRange numTrafficClasses).find? fun k => !(q.queues k).isEmpty

def take (getter : Nat) (k : TrafficClass) (item : α) (rest : List α) : InboundQueues α :=
  { q with queues := Function.update q.queues k rest, returned := q.returned ++ [⟨getter, k, item⟩] }

/-- One scan of the classes; `none` if they are all empty. -/
def scan (getter : Nat) : Option (InboundQueues α) :=
  q.firstQueued.bind fun k =>
    match q.queues k with
    | [] => none
    | item :: rest => some (q.take getter k item rest)

inductive Getter where
  | get
  | tryGet
  | getWithTimeout
  | getUntil
deriving DecidableEq, Repr

inductive Point (α : Type) where
  | put (trafficClass : Int) (item : α)
  /-- The head of the loop of a getter. -/
  | scan (getter : Nat) (kind : Getter)
  | wait (getter : Nat) (kind : Getter) (ch : Nat)
  /-- The second scan of `GetUntil`, after the stop channel was closed. -/
  | rescan (getter : Nat)
deriving DecidableEq, Repr

inductive Signal where
  | notified
  /-- The timer has fired. -/
  | timer
  /-- The deadline has passed. -/
  | expired
  | stopped
deriving DecidableEq, Repr

def afterScan (getter : Nat) (kind : Getter) (signal : Signal) : List (Point α) :=
  match kind with
  | .tryGet => []
  | .getWithTimeout => if signal = .expired then [] else [.wait getter kind q.notify]
  | .get | .getUntil => [.wait getter kind q.notify]

def afterWait (getter : Nat) (kind : Getter) (ch : Nat) : Signal → Option (List (Point α))
  | .notified => if q.Closed ch then some [.scan getter kind] else none
  | .timer => if kind = .getWithTimeout then some [.scan getter kind] else none
  | .expired => if kind = .getWithTimeout then some [] else none
  | .stopped => if kind = .getUntil then some [.rescan getter] else none

def exec : Point α → Signal → Option (InboundQueues α × List (Point α))
  | .put trafficClass item, _ => some ((q.put trafficClass item).1, [])
  | .scan getter kind, signal =>
    match q.scan getter with
    | some q' => some (q', [])
    | none => some (q, q.afterScan getter kind signal)
  | .wait getter kind ch, signal => (q.afterWait getter kind ch signal).map fun next => (q, next)
  | .rescan getter, _ => some ((q.scan getter).getD q, [])

def Point.entry : Point α → Bool
  | put _ _ | scan _ _ => true
  | wait _ _ _ | rescan _ => false

def system : Threads.System (InboundQueues α) (Point α) Signal where
  entry := Point.entry
  exec q := q.exec

end InboundQueues
end Reticulum
