import Statechart.Definition.Config
import Statechart.SortedMap

/-!
# Definitions

A built definition holds its states and transitions in document order. The functions here look
states up, walk the tree, and route an event to the transitions of a state.
-/

namespace Statechart

structure Definition (L : Type) where
  id : String
  /-- The initial context. -/
  context : Json
  strict : Bool
  nodes : Array (StateNode L)
  transitions : Array (Transition L)
  /-- The definition as it was written. -/
  raw : MachineConfig
  /-- Identifies the written definition. -/
  checksum : String
deriving Inhabited

namespace Definition

variable {L : Type} (d : Definition L)

/-! ## Looking up -/

def node (index : Nat) : StateNode L := d.nodes[index]?.getD default

def transition (index : Nat) : Transition L := d.transitions[index]?.getD default

/-- The position of the root. -/
def rootIndex : Nat := 0

def root : StateNode L := d.node rootIndex

/-- The position of the state with an id, which may be written with `#` before it. -/
def find? (id : String) : Option Nat :=
  d.nodes.toList.findIdx? fun n => n.id == Text.dropLeading '#' id

def childByKey? (parent : Nat) (key : String) : Option Nat :=
  (d.node parent).children.find? fun c => (d.node c).key == key

/-! ## The tree -/

/-- Whether `node` lies properly below `ancestor`. -/
def isDescendant (node ancestor : Nat) : Bool := (d.node ancestor).contains node

/-- The states above a state, nearest first, before `stop`; at most `fuel` of them. -/
def climb (stop : Option Nat) : Nat → Nat → List Nat
  | 0, _ => []
  | fuel + 1, index =>
      match (d.node index).parent with
      | none => []
      | some p => if some p = stop then [] else p :: climb stop fuel p

/-- The proper ancestors of a state, nearest first, up to but without `stop`. -/
def properAncestors (index : Nat) (stop : Option Nat) : List Nat :=
  d.climb stop d.nodes.size index

/-! ## Event routing -/

/-- The names of all events that some transition listens for by name. -/
def events : List String :=
  SortedSet.ofList <| d.transitions.toList.filterMap fun t =>
    match t.event with
    | .exact name => some name
    | _ => none

/-- Whether some transition listens for an event. -/
def acceptsEvent (name : String) : Bool :=
  d.transitions.toList.any fun t =>
    match t.event with
    | .exact n => n == name
    | e => e.isOpen && e.matchesName name

/-- The transitions of a state that listen for an event by its name. -/
def exactTransitions (index : Nat) (name : String) : List Nat :=
  (d.node index).transitions.filter fun t => (d.transition t).event == .exact name

/-- The transitions of a state that listen for families of events, longest name first. -/
def openTransitions (index : Nat) : List Nat :=
  ((d.node index).transitions.filter fun t => (d.transition t).event.isOpen).mergeSort
    fun a b => decide ((d.transition b).event.specificity ≤ (d.transition a).event.specificity)

/-- The transitions of a state to try for an event, in order. Transitions that listen for it by name
keep all others out. -/
def candidates (index : Nat) (name : String) : List Nat :=
  match d.exactTransitions index name with
  | [] => (d.openTransitions index).filter fun t => (d.transition t).event.matchesName name
  | exact => exact

/-- The transitions of a state that need no event. -/
def eventless (index : Nat) : List Nat :=
  (d.node index).transitions.filter fun t => (d.transition t).event == .eventless

end Definition

end Statechart
