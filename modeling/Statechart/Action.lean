import Statechart.Actor.Script
import Statechart.Guard

/-!
# Actions

An action updates the context, raises an event for the machine itself, or asks for something to be
done to other actors. Values and events in it are fixed or computed from the context and the event
at hand. The type of the behaviours that an action can spawn in place is left open.
-/

namespace Statechart

/-- What a supplied function sees. `held` finds the actors that the application holds by name. -/
structure ActionArgs where
  context : Json
  event : Event
  params : Json
  held : String → Option Session

/-! ## Parts of actions -/

inductive ValueExpr where
  | fixed (value : Json)
  | computed (f : ActionArgs → Json)

def ValueExpr.eval (args : ActionArgs) : ValueExpr → Json
  | .fixed value => value
  | .computed f => f args

inductive EventExpr where
  | fixed (event : Event)
  | computed (f : ActionArgs → Event)

def EventExpr.eval (args : ActionArgs) : EventExpr → Event
  | .fixed event => event
  | .computed f => f args

/-- The new value of one field of the context. -/
inductive Assigner where
  | fixed (value : Json)
  | computed (f : ActionArgs → Except ActionError Json)

inductive Assignment where
  /-- Replaces the whole context. -/
  | reducer (f : ActionArgs → Except ActionError Json)
  /-- Sets fields of the context, in order, from the context as it was before. -/
  | keys (assigners : List (String × Assigner))

namespace Assignment

/-- Sets fields in order. All values are computed from the context in `args`. -/
def setFields (args : ActionArgs) :
    List (String × Assigner) → List (String × Json) → Except ActionError (List (String × Json))
  | [], fields => .ok fields
  | (key, .fixed value) :: rest, fields => setFields args rest (Json.setField key value fields)
  | (key, .computed f) :: rest, fields =>
      match f args with
      | .ok value => setFields args rest (Json.setField key value fields)
      | .error e => .error e

/-- The context after an assignment. Fields can be set on an object or on nothing. -/
def apply (args : ActionArgs) : Assignment → Except ActionError Json
  | .reducer f => f args
  | .keys assigners =>
      match args.context with
      | .obj fields => (setFields args assigners fields).map Json.obj
      | .null => (setFields args assigners []).map Json.obj
      | _ => .error { message := "cannot assign keys to a non-object context" }

end Assignment

/-- How long an event is held back: milliseconds, or the name of a supplied delay. -/
inductive Delay where
  | ms (n : Nat)
  | named (name : String)
deriving DecidableEq, Inhabited

/-- A text that is a number below 2^64 means milliseconds. -/
def Delay.parse (text : String) : Delay :=
  match Text.natBelow? UInt64.size text with
  | some n => .ms n
  | none => .named text

def Delay.text : Delay → String
  | .ms n => toString n
  | .named name => name

/-- To whom an event is sent. -/
inductive SendTarget where
  | parent
  | self
  | child (id : String)
  /-- The actor registered under a system id. -/
  | system (id : String)
  | actor (session : Session)
deriving DecidableEq, Inhabited

/-- `#_parent`, `#_internal` or `#_self`, or the id of a child with or without `#_` before it. -/
def SendTarget.parse (text : String) : SendTarget :=
  if text = "#_parent" then .parent
  else if text = "#_internal" ∨ text = "#_self" then .self
  else .child ((Text.stripStart? "#_" text).getD text)

def SendTarget.text : SendTarget → String
  | .parent => "#_parent"
  | .self => "#_internal"
  | .child id => id
  | .system id => "system:" ++ id
  | .actor session => session.text

/-- The behaviour of an actor to spawn: the key of a supplied one, or one given in place. -/
inductive LogicSource (L : Type) where
  | key (name : String)
  | inline (logic : L)

/-- One branch of a choice. -/
structure Branch (A : Type) where
  guard : Option Guard
  actions : List A

/-! ## Actions -/

inductive Action (L : Type) where
  /-- A supplied action. -/
  | named (name : String) (params : Json)
  | assign (assignment : Assignment)
  /-- An event for the machine itself: in the same step, or after a delay. -/
  | raise (event : EventExpr) (delay : Option Delay) (id : Option String)
  | sendTo (target : SendTarget) (event : EventExpr) (delay : Option Delay) (id : Option String)
  | log (label : Option String) (value : Option ValueExpr)
  | spawn (source : LogicSource L) (id systemId : Option String) (input : ValueExpr)
  /-- Stops a child. -/
  | stop (id : String)
  /-- Cancels a delayed event. -/
  | cancel (id : String)
  /-- Runs the first branch whose guard passes. -/
  | choose (branches : List (Branch (Action L)))
  /-- Runs actions that are computed when their turn comes. -/
  | enqueue (f : ActionArgs → List (Action L))
  /-- Runs a script after the step. -/
  | custom (run : ActionArgs → Script (Except ActionError Unit))

namespace Action

variable {L : Type}

/-- The name under which the action is recorded. -/
def kind : Action L → String
  | .named name _ => name
  | .assign _ => "assign"
  | .raise _ _ _ => "raise"
  | .sendTo _ _ _ _ => "sendTo"
  | .log _ _ => "log"
  | .spawn _ _ _ _ => "spawnChild"
  | .stop _ => "stopChild"
  | .cancel _ => "cancel"
  | .choose _ => "choose"
  | .enqueue _ => "enqueueActions"
  | .custom _ => "custom"

/-- Sets the delay of an event to raise or send; other actions stay as they are. -/
def withDelay (delay : Delay) : Action L → Action L
  | .raise event _ id => .raise event (some delay) id
  | .sendTo target event _ id => .sendTo target event (some delay) id
  | a => a

/-- Sets the id by which an event to raise or send can be cancelled. -/
def withId (id : String) : Action L → Action L
  | .raise event delay _ => .raise event delay (some id)
  | .sendTo target event delay _ => .sendTo target event delay (some id)
  | a => a

end Action

end Statechart
