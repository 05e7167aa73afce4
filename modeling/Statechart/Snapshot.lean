import Statechart.Configuration
import Statechart.Logic

/-!
# Snapshots

The state of an actor between two events. A machine's snapshot holds its configuration and all that
follows from it; the snapshot of a reducer or a task holds a JSON value.
-/

namespace Statechart

inductive SnapshotStatus where
  | active
  | done
  | error
  | stopped
deriving DecidableEq, Inhabited

namespace SnapshotStatus

def text : SnapshotStatus → String
  | .active => "active"
  | .done => "done"
  | .error => "error"
  | .stopped => "stopped"

def ofText? : String → Option SnapshotStatus
  | "active" => some .active
  | "done" => some .done
  | "error" => some .error
  | "stopped" => some .stopped
  | _ => none

@[simp] theorem ofText?_text (s : SnapshotStatus) : ofText? s.text = some s := by
  cases s <;> rfl

end SnapshotStatus

/-- The record of an action that was carried out. -/
structure ExecutedAction where
  kind : String
  params : Json
deriving DecidableEq

/-! ## Machines -/

structure MachineSnapshot where
  definition : Definition Logic
  value : StateValue
  context : Json
  config : Configuration
  history : HistoryValue
  /-- The children by id, in the order of their ids. -/
  children : List (String × Session)
  tags : List String
  status : SnapshotStatus
  output : Option Json
  error : Option Json
  /-- Whether the last step moved, assigned or carried out anything. -/
  changed : Bool
  /-- What the last step carried out, in order. -/
  actions : List ExecutedAction
deriving Inhabited

namespace MachineSnapshot

/-- A machine that has not entered any state. -/
def start (definition : Definition Logic) (context : Json) : MachineSnapshot where
  definition
  value := .branch []
  context
  config := .empty
  history := []
  children := []
  tags := []
  status := .active
  output := none
  error := none
  changed := false
  actions := []

/-- Brings state value and tags in line with the configuration. -/
def refresh (s : MachineSnapshot) : MachineSnapshot :=
  { s with
    value := s.definition.stateValue s.config
    tags := s.definition.tags s.config }

/-- Whether the state value contains a dotted path. -/
def matchesPath (s : MachineSnapshot) (path : String) : Bool := s.value.matchesPath path

def hasTag (s : MachineSnapshot) (tag : String) : Bool := s.tags.contains tag

/-- Whether the state with an id is active. -/
def isActive (s : MachineSnapshot) (id : String) : Bool := s.definition.isActive s.config id

/-- The ids of the active states, in document order. -/
def stateIds (s : MachineSnapshot) : List String :=
  s.config.toList.map fun i => (s.definition.node i).id

def child? (s : MachineSnapshot) (id : String) : Option Session :=
  SortedMap.find? id s.children

end MachineSnapshot

/-! ## Reducers and tasks -/

structure ValueSnapshot where
  status : SnapshotStatus := .active
  context : Json := .null
  output : Option Json := none
  error : Option Json := none
  input : Json := .null
deriving Inhabited

/-! ## All actors -/

inductive Snapshot where
  | machine (s : MachineSnapshot)
  | value (s : ValueSnapshot)
deriving Inhabited

namespace Snapshot

def status : Snapshot → SnapshotStatus
  | .machine s => s.status
  | .value s => s.status

def context : Snapshot → Json
  | .machine s => s.context
  | .value s => s.context

def output : Snapshot → Option Json
  | .machine s => s.output
  | .value s => s.output

def error : Snapshot → Option Json
  | .machine s => s.error
  | .value s => s.error

/-- The children in the order of their ids. -/
def children : Snapshot → List (String × Session)
  | .machine s => s.children
  | .value _ => []

def sessions (s : Snapshot) : List Session := s.children.map Prod.snd

def withStatus (status : SnapshotStatus) : Snapshot → Snapshot
  | .machine s => .machine { s with status }
  | .value s => .value { s with status }

/-- The snapshot of an actor that is stopped. -/
def stopped (s : Snapshot) : Snapshot := s.withStatus .stopped

/-- The snapshot of an actor that has failed. -/
def failed (data : Json) : Snapshot → Snapshot
  | .machine s => .machine { s with status := .error, error := some data }
  | .value s => .value { s with status := .error, error := some data }

/-- Whether the state value of a machine contains a dotted path; other actors contain none. -/
def matchesPath (path : String) : Snapshot → Bool
  | .machine s => s.matchesPath path
  | .value _ => false

end Snapshot

end Statechart
