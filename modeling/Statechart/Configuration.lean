import Statechart.Definition.Basic
import Statechart.Error
import Statechart.NodeSet
import Statechart.StateValue

/-!
# Configurations

A configuration is the set of active states. `resolve` completes some states to a configuration,
`stateValue` and `ofValue` go from a configuration to its state value and back, `isValid` says what
makes a configuration possible, and `isInFinalState` when a state is complete.
-/

namespace Statechart

/-- The set of active states. -/
abbrev Configuration := NodeSet

/-- What history states remember. -/
abbrev HistoryValue := List (Nat × List Nat)

namespace Definition

variable {L : Type} (d : Definition L)

/-! ## Completion -/

/-- The child to activate in a compound state that has no active one: the child that was active
before, or else the initial one. -/
def defaultChild? (previous : Configuration) (n : StateNode L) : Option Nat :=
  match n.children.find? fun c => previous.contains c && !(d.node c).isHistory with
  | some c => some c
  | none => n.initial

/-- Activates what an active state needs below it. -/
def fill (previous : Configuration) (config : Configuration) (index : Nat) : Configuration :=
  if config.contains index then
    let n := d.node index
    match n.kind with
    | .compound =>
        if n.children.any config.contains then config
        else match d.defaultChild? previous n with
          | some c => config.insert c
          | none => config
    | .parallel => config.insertAll (n.children.filter fun c => !(d.node c).isHistory)
    | _ => config
  else config

/-- Some states with everything above them. -/
def withAncestors (targets : List Nat) : Configuration :=
  targets.foldl (fun config t => (config.insert t).insertAll (d.properAncestors t none)) .empty

/-- The configuration around some states. Children stand after their parents, so one pass in
document order reaches every state that it adds. -/
def resolve (previous : Configuration) (targets : List Nat) : Configuration :=
  (List.range d.nodes.size).foldl (d.fill previous) (d.withAncestors targets)

/-! ## State values -/

/-- The value of a state, for a definition with at most `fuel` levels below it. -/
def valueAt (config : Configuration) : Nat → Nat → StateValue
  | 0, _ => .branch []
  | fuel + 1, index =>
      let n := d.node index
      match n.kind with
      | .compound =>
          match n.children.find? config.contains with
          | some c =>
              if (d.node c).isAtomic then .leaf (d.node c).key
              else .branch [((d.node c).key, valueAt config fuel c)]
          | none => .branch []
      | .parallel =>
          .ofFields ((n.children.filter config.contains).map fun c =>
            ((d.node c).key, valueAt config fuel c))
      | _ => .branch []

/-- The state value of a configuration. No path is longer than the number of states. -/
def stateValue (config : Configuration) : StateValue :=
  d.valueAt config (d.nodes.size + 1) rootIndex

/-- The child of a state that a value names. -/
def namedChild (parent : Nat) (key : String) : Except ActorError Nat :=
  match d.childByKey? parent key with
  | some c => .ok c
  | none => .error (.restore ("state '" ++ (d.node parent).id ++ "' has no child '" ++ key ++ "'"))

mutual

/-- The states that a value names below a state. -/
def named (parent : Nat) : StateValue → Except ActorError (List Nat)
  | .leaf key => do .ok [← d.namedChild parent key]
  | .branch fields => namedFields parent fields

def namedFields (parent : Nat) : List (String × StateValue) → Except ActorError (List Nat)
  | [] => .ok []
  | (key, value) :: rest => do
      let c ← d.namedChild parent key
      let below ← named c value
      let others ← namedFields parent rest
      .ok (c :: below ++ others)

end

/-- The configuration around the states that a value names. -/
def ofValue (value : StateValue) : Except ActorError Configuration := do
  let states ← d.named rootIndex value
  .ok (d.resolve .empty (rootIndex :: states))

/-! ## Properties -/

/-- Whether the state with an id is active. -/
def isActive (config : Configuration) (id : String) : Bool :=
  match d.find? id with
  | some i => config.contains i
  | none => false

/-- Whether a state is complete: a final state that is active, a compound state with an active
final child, a parallel state all of whose regions are complete. -/
def finalAt (config : Configuration) : Nat → Nat → Bool
  | 0, _ => false
  | fuel + 1, index =>
      let n := d.node index
      match n.kind with
      | .compound => n.children.any fun c => config.contains c && (d.node c).isFinal
      | .parallel =>
          (n.children.filter fun c => !(d.node c).isHistory).all (finalAt config fuel)
      | .final => config.contains index
      | _ => false

def isInFinalState (config : Configuration) (index : Nat) : Bool :=
  d.finalAt config (d.nodes.size + 1) index

/-- The tags of all active states, sorted. -/
def tags (config : Configuration) : List String :=
  SortedSet.ofList (config.toList.flatMap fun i => (d.node i).tags)

/-- The active states without children, in document order. -/
def leaves (config : Configuration) : List Nat :=
  config.toList.filter fun i => (d.node i).isAtomic

/-- Whether an active state has its parent and the right number of children active. -/
def isValidAt (config : Configuration) (index : Nat) : Bool :=
  let n := d.node index
  let parentActive := match n.parent with
    | none => true
    | some p => config.contains p
  let childrenActive := match n.kind with
    | .compound => (n.children.filter config.contains).length == 1
    | .parallel => n.children.all fun c => (d.node c).isHistory || config.contains c
    | .history => false
    | _ => true
  parentActive && childrenActive

/-- Whether a configuration is possible. The empty one is. -/
def isValid (config : Configuration) : Bool := config.toList.all (d.isValidAt config)

end Definition

end Statechart
