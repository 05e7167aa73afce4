import Statechart.Error

/-!
# Sessions and scripts

Every actor of a system has a session, numbered in the order of creation. A script is what a
supplied function does besides computing: it reports lines to the outside and makes calls on actors
that the application holds by name, each of which is answered before the script goes on.
-/

namespace Statechart

/-- An actor of a system. -/
structure Session where
  number : Nat
deriving DecidableEq, Inhabited

/-- The id by which a session is known in events. -/
def Session.text (s : Session) : String := "actor-" ++ toString s.number

inductive ActorStatus where
  | notStarted
  | running
  | stopped
deriving DecidableEq, Inhabited

def ActorStatus.text : ActorStatus → String
  | .notStarted => "not_started"
  | .running => "running"
  | .stopped => "stopped"

/-- A call on an actor. -/
inductive Call where
  | start
  | stop
  | send (event : Event)

/-- The answer to a call: the result and the actor's status afterwards, if the name was held. -/
inductive Reply where
  | unknown
  | answered (result : Except ActorError Unit) (status : ActorStatus)

/-- A computation with calls. -/
inductive Script (α : Type) where
  | done (result : α)
  | report (line : Json) (next : Script α)
  | call (name : String) (request : Call) (next : Reply → Script α)

namespace Script

def map {α β : Type} (f : α → β) : Script α → Script β
  | .done a => .done (f a)
  | .report line next => .report line (next.map f)
  | .call name request next => .call name request fun reply => (next reply).map f

end Script

end Statechart
