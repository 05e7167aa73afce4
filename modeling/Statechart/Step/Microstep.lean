import Statechart.Step

/-!
# Microsteps

One microstep takes a set of transitions without conflicts: it leaves states from the last to the
first in document order, carries out the transitions' actions, and enters states in document order.
Entering final states completes the states around them and, at the root, the machine.
-/

namespace Statechart.Machine

open StepM

variable (m : Machine)

/-! ## Leaving -/

/-- Leaves one state. -/
def exitState (event : Event) (state : Nat) : StepM Unit := do
  m.execute (m.definition.node state).exit event
  mark (.exited state)
  modifySnapshot fun s => { s with config := s.config.erase state }

def exitStates (event : Event) : List Nat → StepM Unit
  | [] => return
  | state :: rest => do
      m.exitState event state
      exitStates event rest

/-- Carries out the exit actions of all given states, which stay in the configuration. -/
def runExits (event : Event) : List Nat → StepM Unit
  | [] => return
  | state :: rest => do
      m.execute (m.definition.node state).exit event
      mark (.exited state)
      runExits event rest

/-- Carries out the exit actions of all active states, last first. -/
def runAllExits (event : Event) : StepM Unit := do
  m.runExits event (← get).snapshot.config.toList.reverse

/-! ## Completion -/

/-- Raises the completion of a state. -/
def raiseDone (state : Nat) (output : Json) : StepM Unit := do
  mark (.completed state)
  raise (.doneState (m.definition.node state).id output)

/-- Raises the completion of the parallel states among some ancestors that have become complete,
and adds them to those raised before in the same pass. -/
def completeRegions (raised : List Nat) : List Nat → StepM (List Nat)
  | [] => return raised
  | a :: rest => do
      let config := (← get).snapshot.config
      if a ≠ Definition.rootIndex ∧ (m.definition.node a).kind = .parallel ∧ a ∉ raised ∧
          m.definition.isInFinalState config a = true then
        m.raiseDone a .null
        -- Another final state of the same pass is not to raise the completion again.
        completeRegions (a :: raised) rest
      else completeRegions raised rest

/-- Raises what an entered final state completes below the root. -/
def completeAround (raised : List Nat) (final : Nat) : StepM (List Nat) :=
  let n := m.definition.node final
  match n.parent with
  | none => return raised
  | some parent =>
      if parent = Definition.rootIndex then return raised
      else do
        m.raiseDone parent (n.output.getD .null)
        m.completeRegions raised (m.definition.properAncestors parent none)

/-- The output of a machine: the root's, or else that of the final state it has reached. -/
def finalOutput (config : Configuration) : Option Json :=
  let root := m.definition.root
  match root.output with
  | some output => some output
  | none =>
      match root.children.find? fun c => config.contains c && (m.definition.node c).isFinal with
      | some c => (m.definition.node c).output
      | none => none

/-- The machine is done. Its states stay in the configuration but their exit actions run. -/
def complete (event : Event) : StepM Unit := do
  modifySnapshot fun s => { s with status := .done, output := m.finalOutput s.config }
  m.runAllExits event

/-! ## Entering -/

def enterStates (event : Event) (raised : List Nat) : List Nat → StepM Unit
  | [] => return
  | state :: rest => do
      modifySnapshot fun s => { s with config := s.config.insert state }
      m.execute (m.definition.node state).entry event
      mark (.entered state)
      let raised ←
        if (m.definition.node state).isFinal then m.completeAround raised state else pure raised
      enterStates event raised rest

/-- Enters states in document order, and finishes the machine if its root is complete then. -/
def enter (event : Event) (entering : List Nat) : StepM Unit := do
  m.enterStates event [] entering
  let s := (← get).snapshot
  if s.status = .active ∧
      m.definition.isInFinalState s.config Definition.rootIndex = true then
    m.complete event

/-- Enters the states that the machine starts in. -/
def enterInitial (event : Event) : StepM Unit :=
  m.enter event m.definition.initialEntrySet.toList

/-! ## Microsteps -/

def runTransitions (event : Event) : List (Transition Logic) → StepM Unit
  | [] => return
  | t :: rest => do
      m.execute t.actions event
      mark (.taken t.index)
      runTransitions event rest

/-- The states that some transitions leave. -/
def leaving (s : MachineSnapshot) (selected : List (Transition Logic)) : Configuration :=
  selected.foldl
    (fun exit t => exit.union (m.definition.exitSet s.config s.history t)) .empty

/-- Takes transitions. Forbidden ones do nothing. -/
def microstep (transitions : List Nat) (event : Event) : StepM Unit := do
  let selected := (transitions.map m.definition.transition).filter fun t => !t.forbidden
  if selected.isEmpty then return
  mark (.microstep (selected.map Transition.index))
  let s := (← get).snapshot
  let exiting := (m.leaving s selected).toList.reverse
  -- History is recorded before anything is left, with all that is leaving still active.
  modifySnapshot fun s =>
    { s with history := m.definition.recordHistory s.config exiting s.history }
  m.exitStates event exiting
  m.runTransitions event selected
  let s := (← get).snapshot
  -- What the transitions did not leave is active still and is not entered a second time.
  let entering := (m.definition.entrySet s.history selected).toList.filter fun state =>
    !s.config.contains state
  m.enter event entering

end Statechart.Machine
