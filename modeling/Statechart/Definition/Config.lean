import Statechart.Definition.Node

/-!
# Written definitions

A machine definition as it is written, before names are resolved: the tree of states with their
transitions, actions and guards. Several shapes are allowed for one thing; the types here keep
which of them was meant, so that a definition can be written again.
-/

namespace Statechart

inductive GuardConfig where
  | named (name : String)
  | expr (text : String)
  | not (inner : GuardConfig)
  | and (guards : List GuardConfig)
  | or (guards : List GuardConfig)
  | stateIn (id : String)
  | parameterized (name : String) (params : Json)
deriving Inhabited

/-- An event written as its name alone or in full. -/
inductive EventConfig where
  | name (name : String)
  | event (event : Event)
deriving DecidableEq, Inhabited

def EventConfig.toEvent : EventConfig → Event
  | .name n => Event.named n
  | .event e => e

inductive DelayConfig where
  | ms (n : Nat)
  | named (name : String)
deriving DecidableEq, Inhabited

/-- A delay written as a text may still be a number of milliseconds. -/
def DelayConfig.toDelay : DelayConfig → Delay
  | .ms n => .ms n
  | .named name => Delay.parse name

structure BranchConfig (A : Type) where
  guard : Option GuardConfig
  actions : List A

inductive ActionConfig where
  | named (name : String)
  | assign (assignment : List (String × Json))
  | raise (event : EventConfig) (delay : Option DelayConfig) (id : Option String)
  | sendTo (target : String) (event : EventConfig) (delay : Option DelayConfig)
      (id : Option String)
  | sendParent (event : EventConfig) (delay : Option DelayConfig) (id : Option String)
  | log (label : Option String) (message : Option Json)
  | cancel (id : String)
  | stopChild (id : String)
  | spawnChild (source : String) (id systemId : Option String) (input : Option Json)
  | choose (branches : List (BranchConfig ActionConfig))
  | parameterized (name : String) (params : Json)
deriving Inhabited

structure TransitionConfig where
  target : List String := []
  guard : Option GuardConfig := none
  actions : List ActionConfig := []
  reenter : Bool := false
  description : Option String := none
deriving Inhabited

/-- A transition that is written as its target alone. -/
def TransitionConfig.toTarget (target : String) : TransitionConfig := { target := [target] }

structure InvokeConfig where
  id : Option String := none
  source : String
  systemId : Option String := none
  input : Option Json := none
  onDone : Option (List TransitionConfig) := none
  onError : Option (List TransitionConfig) := none
deriving Inhabited

/-- Everything written at a state except its child states. -/
structure StateAttributes where
  id : Option String := none
  kind : Option StateKind := none
  initial : Option String := none
  /-- Transitions by event; nothing stands for a forbidden transition. -/
  on : Option (List (String × Option (List TransitionConfig))) := none
  always : Option (List TransitionConfig) := none
  /-- Transitions by milliseconds or name of a delay. -/
  after : Option (List (String × List TransitionConfig)) := none
  onDone : Option (List TransitionConfig) := none
  entry : List ActionConfig := []
  exit : List ActionConfig := []
  invoke : List InvokeConfig := []
  tags : List String := []
  output : Option Json := none
  history : Option HistoryKind := none
  /-- Where a history state leads by default. -/
  target : List String := []
  description : Option String := none
  metadata : Option Json := none
deriving Inhabited

/-- A state with its child states by key, in document order. -/
inductive StateConfig where
  | node (attributes : StateAttributes) (states : Option (List (String × StateConfig)))
deriving Inhabited

namespace StateConfig

def attributes : StateConfig → StateAttributes
  | .node attributes _ => attributes

/-- The child states; none are written the same as an empty list of them. -/
def children : StateConfig → List (String × StateConfig)
  | .node _ states => states.getD []

end StateConfig

/-- A whole definition. -/
structure MachineConfig where
  context : Json := .null
  /-- Whether events that no transition listens for are rejected. -/
  strict : Bool := false
  root : StateConfig
deriving Inhabited

end Statechart
