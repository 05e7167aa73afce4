import Statechart.Step.Microstep

/-!
# Macrosteps

A macrostep runs microsteps until nothing is left to do: first the transitions that need no event,
then the internal events one by one, and only then the external event, after which the rest starts
again. A machine that is no longer active does nothing more.
-/

namespace Statechart.Machine

open StepM

variable (m : Machine)

def selectEventless (last : Event) : StepM (List Nat) := do
  match m.definition.selectEventless (m.situation (← get).snapshot) last with
  | .ok selected => return selected
  | .error e => throw e

/-- Selects for an event and takes what was selected. An error event that nothing is selected for
fails the machine. -/
def handle (event : Event) : StepM Unit := do
  match m.definition.select (m.situation (← get).snapshot) event with
  | .error e => throw e
  | .ok selected =>
      mark (.handled event selected)
      if selected.isEmpty then
        if event.isError then
          modifySnapshot fun s => { s with status := .error, error := some event.data }
      else m.microstep selected event

/-- Lets a child go that reports its own end. -/
def releaseCompleted (event : Event) : StepM Unit :=
  modifySnapshot fun s =>
    match event.completedChild? with
    | none => s
    | some id =>
        match s.child? id with
        | none => s
        | some child =>
            -- The id may be that of a newer child by now, which is not let go.
            if event.origin = some child.text then
              { s with children := SortedMap.erase id s.children }
            else s

/-- Takes the next internal event. -/
def nextInternal : StepM (Option Event) := do
  let w ← get
  match w.internal with
  | [] => return none
  | event :: rest =>
      set { w with internal := rest }
      return some event

/-- Runs until nothing is left to do, for at most `fuel` rounds. `last` is the event that guards of
transitions without an event see. -/
def settle : Nat → Option Event → Event → StepM Unit
  | 0, _, _ => do throw (.unsettled (← get).scope.id)
  | fuel + 1, pending, last => do
      if (← get).snapshot.status ≠ .active then return
      -- Transitions that need no event go before every event that waits.
      let selected ← m.selectEventless last
      if !selected.isEmpty then
        mark (.eventless last selected)
        m.microstep selected last
        settle fuel pending last
      else match ← nextInternal with
        | some event =>
            m.handle event
            settle fuel pending event
        | none =>
            -- Nothing of its own is left, so the machine takes the event from outside, once.
            match pending with
            | some event =>
                releaseCompleted event
                m.handle event
                settle fuel none event
            | none => return

/-- One macrostep, with an external event or without. -/
def macrostep (external : Option Event) (trigger : Event) : StepM Unit :=
  m.settle patience external trigger

end Statechart.Machine
