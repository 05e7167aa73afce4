import Statechart.Action

/-!
# Effects

What a step asks for beyond its own snapshot. Effects are collected while the step runs, and the
actor carries them out once the new snapshot is in place.
-/

namespace Statechart

/-- The recipient of an event: an actor to be looked up when the time comes, or one already found,
which is kept alive until then. -/
inductive Destination where
  | session (session : Session)
  | actor (session : Session)
deriving DecidableEq, Inhabited

inductive Effect where
  | send (target : Destination) (event : Event) (delay : Option Nat) (id : Option String)
  | start (child : Session)
  | stop (child : Session)
  /-- Cancels a delayed event by its id. -/
  | cancel (id : String)
  | log (label : Option String) (value : Json)
  /-- Runs a supplied action with what it was given when its turn came. -/
  | exec (name : String) (args : ActionArgs)
      (run : ActionArgs → Script (Except ActionError Unit))

/-- The actor that a destination keeps alive. -/
def Destination.keeps : Destination → List Session
  | .session _ => []
  | .actor s => [s]

/-- The actors that an effect keeps alive until it is carried out. -/
def Effect.keeps : Effect → List Session
  | .send target _ _ _ => target.keeps
  | .start child => [child]
  | .stop child => [child]
  | _ => []

end Statechart
