import Statechart.Actor.Script
import Statechart.Snapshot

/-!
# Observers

Callbacks that follow an actor: one for every snapshot, one for its failure, one for its end. An
observer with an error callback takes care of the failure, so that it does not reach the caller.
-/

namespace Statechart

structure Observer where
  /-- Called with the number of snapshots seen before, and the snapshot. -/
  next : Option (Nat → Snapshot → Script Unit) := none
  error : Option (ActorError → Script Unit) := none
  complete : Option (Script Unit) := none
deriving Inhabited

def Observer.handlesErrors (o : Observer) : Bool := o.error.isSome

/-- What an observer gets told. -/
inductive Notification where
  | next (snapshot : Snapshot)
  | error (e : ActorError)
  | complete

/-- What an observer does about a notification, after `seen` snapshots. -/
def Observer.react (o : Observer) (seen : Nat) : Notification → Option (Script Unit)
  | .next snapshot => o.next.map fun f => f seen snapshot
  | .error e => o.error.map fun f => f e
  | .complete => o.complete

/-- An actor's observer, by its number in the system. A subscription to an actor that had stopped
already stands for none. -/
structure Subscription where
  target : Option (Session × Nat)
deriving DecidableEq, Inhabited

end Statechart
