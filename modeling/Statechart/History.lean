import Statechart.Configuration

/-!
# History

What history states stand for and when they remember. A history state that has recorded something
stands for that; otherwise it stands for its declared default, or for what its parent enters by
default.
-/

namespace Statechart.Definition

variable {L : Type} (d : Definition L)

/-- What a history state leads to as long as nothing is recorded. -/
def historyDefaults (state : Nat) : List Nat :=
  let n := d.node state
  match n.historyDefault, n.parent with
  | [], none => []
  | [], some p =>
      match (d.node p).kind with
      | .parallel => (d.node p).children.filter fun c => !(d.node c).isHistory
      | _ => (d.node p).initial.toList
  | declared, _ => declared

/-- The states that a history state leads to. -/
def historyTargets (history : HistoryValue) (state : Nat) : List Nat :=
  (SortedMap.find? state history).getD (d.historyDefaults state)

/-- What a history child of a state that is about to be left remembers: the active leaves below the
state, or its active children. -/
def remembered (config : Configuration) (state : Nat) : HistoryKind → List Nat
  | .deep => config.toList.filter fun s => (d.node s).isAtomic && d.isDescendant s state
  | .shallow => (d.node state).children.filter config.contains

/-- Records what the history children of one state remember. -/
def recordAt (config : Configuration) (history : HistoryValue) (state : Nat) : HistoryValue :=
  (d.node state).children.foldl
    (fun history child =>
      match (d.node child).history with
      | some kind => SortedMap.insert child (d.remembered config state kind) history
      | none => history)
    history

/-- Records the history of all states that are about to be left. -/
def recordHistory (config : Configuration) (exiting : List Nat) (history : HistoryValue) :
    HistoryValue :=
  exiting.foldl (d.recordAt config) history

end Statechart.Definition
