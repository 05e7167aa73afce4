import Statechart.Action
import Statechart.Event.Descriptor

/-!
# State nodes and transitions

A definition keeps its states in document order and refers to them by position, so every subtree is
a run of positions that begins with its root.
-/

namespace Statechart

inductive StateKind where
  | atomic
  | compound
  | parallel
  | final
  | history
deriving DecidableEq, Inhabited

def StateKind.text : StateKind → String
  | .atomic => "atomic"
  | .compound => "compound"
  | .parallel => "parallel"
  | .final => "final"
  | .history => "history"

def StateKind.ofText? : String → Option StateKind
  | "atomic" => some .atomic
  | "compound" => some .compound
  | "parallel" => some .parallel
  | "final" => some .final
  | "history" => some .history
  | _ => none

@[simp] theorem StateKind.ofText?_text (k : StateKind) : ofText? k.text = some k := by
  cases k <;> rfl

/-- What a history state remembers: its siblings, or the leaves below its parent. -/
inductive HistoryKind where
  | shallow
  | deep
deriving DecidableEq, Inhabited

def HistoryKind.text : HistoryKind → String
  | .shallow => "shallow"
  | .deep => "deep"

def HistoryKind.ofText? : String → Option HistoryKind
  | "shallow" => some .shallow
  | "deep" => some .deep
  | _ => none

@[simp] theorem HistoryKind.ofText?_text (k : HistoryKind) : ofText? k.text = some k := by
  cases k <;> rfl

/-- An actor that runs while its state is active. -/
structure Invocation where
  id : String
  source : String
deriving DecidableEq, Inhabited

/-- A state of a built definition. -/
structure StateNode (L : Type) where
  index : Nat
  /-- Unique in the definition. -/
  id : String
  /-- Unique among the siblings. -/
  key : String
  kind : StateKind
  parent : Option Nat
  children : List Nat
  /-- The child that a compound state enters by default. -/
  initial : Option Nat
  entry : List (Action L)
  exit : List (Action L)
  invoke : List Invocation
  /-- The transitions that leave from here, in document order. -/
  transitions : List Nat
  tags : List String
  output : Option Json
  history : Option HistoryKind
  /-- Where a history state leads as long as nothing is remembered. -/
  historyDefault : List Nat
  description : Option String
  metadata : Option Json
  depth : Nat
  /-- The position after the last descendant. -/
  subtreeEnd : Nat
deriving Inhabited

namespace StateNode

variable {L : Type}

def isFinal (n : StateNode L) : Bool := n.kind == .final

def isHistory (n : StateNode L) : Bool := n.kind == .history

/-- Whether the state is a leaf of a configuration. -/
def isAtomic (n : StateNode L) : Bool := n.kind == .atomic || n.kind == .final

/-- Whether a position belongs to a proper descendant. -/
def contains (n : StateNode L) (other : Nat) : Bool :=
  decide (n.index < other) && decide (other < n.subtreeEnd)

end StateNode

/-- A transition of a built definition. -/
structure Transition (L : Type) where
  index : Nat
  source : Nat
  event : Descriptor
  /-- Empty for a transition that stays where it is. -/
  targets : List Nat
  /-- A forbidden transition is selected like any other but does nothing. -/
  forbidden : Bool
  guard : Option Guard
  actions : List (Action L)
  reenter : Bool
  /-- Given for transitions that are taken after a delay. -/
  delay : Option Delay
  description : Option String
deriving Inhabited

def Transition.isTargetless {L : Type} (t : Transition L) : Bool := t.targets.isEmpty

end Statechart
