import Statechart.Step.Macrostep

/-!
# Machines

A machine as a function: from its input to a first snapshot, and from a snapshot and an event to the
next one. Nothing outside changes; what a step asks for stays in the scope as effects.
-/

namespace Statechart

/-- The scope with the system's pins as they were before a call. -/
def Scope.unpin (scope : Scope) (pins : List Session) : Scope :=
  { scope with system := { scope.system with pins } }

namespace Machine

variable (m : Machine)

/-! ## Running a step -/

/-- The state at the beginning of a step. -/
def begin (scope : Scope) (s : MachineSnapshot) : Work :=
  { snapshot := { s with actions := [], changed := false }, scope }

/-- Whether anything has changed that an observer of the snapshot cares for. -/
def hasChanged (before after : MachineSnapshot) : Bool :=
  before.config != after.config || !before.context.same after.context || !after.actions.isEmpty

/-- The snapshot at the end of a step. -/
def finish (before : Option MachineSnapshot) (s : MachineSnapshot) : MachineSnapshot :=
  let s := s.refresh
  { s with changed := match before with
      | some b => hasChanged b s
      | none => true }

/-- Runs a step from a snapshot whose children stay alive meanwhile. -/
def runStep (scope : Scope) (s : MachineSnapshot) (body : StepM Unit) :
    EStateM.Result ActorError Work Unit :=
  body (begin { scope with system := scope.system.pinning (s.children.map Prod.snd) } s)

/-- What comes out of a step: its scope, and the snapshot unless it was abandoned. -/
def outcome (pins : List Session) (before : Option MachineSnapshot) :
    EStateM.Result ActorError Work Unit → Scope × Except ActorError MachineSnapshot
  | .ok _ w => (w.scope.unpin pins, .ok (finish before w.snapshot))
  | .error e w => (w.scope.unpin pins, .error e)

/-! ## Machines as functions -/

def initEvent (input : Json) : Event := .platform Event.initName input

def stopEvent : Event := .platform Event.stopName .null

/-- The context that a machine starts with. -/
def initialContext (input : Json) : Json :=
  match m.implementations.context with
  | some make => make input
  | none => m.definition.context

/-- The first macrostep: the default states are entered and left to settle. -/
def initialRun (scope : Scope) (input : Json) : EStateM.Result ActorError Work Unit :=
  runStep scope (.start m.definition (m.initialContext input)) do
    m.enterInitial (initEvent input)
    m.macrostep none (initEvent input)

def initialState (scope : Scope) (input : Json) : Scope × Except ActorError MachineSnapshot :=
  outcome scope.system.pins none (m.initialRun scope input)

/-- The macrostep for an event. -/
def transitionRun (scope : Scope) (s : MachineSnapshot) (event : Event) :
    EStateM.Result ActorError Work Unit :=
  runStep scope s (m.macrostep (some event) event)

/-- The snapshot after an event. One that is not active stays as it is. -/
def transition (scope : Scope) (s : MachineSnapshot) (event : Event) :
    Scope × Except ActorError MachineSnapshot :=
  if s.status = .active then outcome scope.system.pins (some s) (m.transitionRun scope s event)
  else (scope, .ok { s with changed := false, actions := [] })

/-- Whether an event would be acted upon. -/
def can (s : MachineSnapshot) (event : Event) : Except ActorError Bool :=
  if s.status = .active then
    match m.definition.select (m.situation s) event with
    -- A forbidden transition takes the event away but does not act upon it.
    | .ok selected => .ok (selected.any fun t => !(m.definition.transition t).forbidden)
    | .error e => .error e
  else .ok false

/-- Whether an event may be sent at all: a strict machine only takes events that it knows. -/
def accepts (event : Event) : Except ActorError Unit :=
  if m.definition.strict && !event.isBuiltin && !m.definition.acceptsEvent event.name then
    .error (.strictModeViolation m.definition.id event.name)
  else .ok ()

/-! ## Stopping -/

/-- Carries out the exit actions of all active states. -/
def stopRun (scope : Scope) (s : MachineSnapshot) : EStateM.Result ActorError Work Unit :=
  runStep scope s do
    m.runAllExits stopEvent
    StepM.modifySnapshot fun s => { s with status := .stopped }

/-- Asks for the stop of all children of a snapshot, which then has none. -/
def releaseChildren (scope : Scope) (s : MachineSnapshot) : Scope × MachineSnapshot :=
  ({ scope with effects := scope.effects ++ s.children.map fun c => Effect.stop c.2 },
    { s with children := [] })

/-- The snapshot after a stop. -/
def stop (scope : Scope) (s : MachineSnapshot) : Scope × Except ActorError MachineSnapshot :=
  if s.status = .active then
    match outcome scope.system.pins (some s) (m.stopRun scope s) with
    | (scope, .ok next) =>
        let (scope, next) := releaseChildren scope next
        (scope, .ok next)
    | (scope, .error e) => (scope, .error e)
  else (scope, .ok { s with status := .stopped })

/-! ## Restoring -/

/-- Makes the stored children whose behaviour is known, in order, and asks for their start. -/
def restoreChildren (scope : Scope) (made : List (String × Session)) :
    List (String × PersistedChild PersistedSnapshot) →
      Scope × Except ActorError (List (String × Session))
  | [] => (scope, .ok made)
  | (id, child) :: rest =>
      let note (n : Notice) : Scope := { scope with system := scope.system.note n }
      match child.source with
      | none => restoreChildren (note (.inlineChildSkipped m.definition.id id)) made rest
      | some source =>
          match m.implementations.actors source with
          | none =>
              restoreChildren (note (.unknownChildSkipped m.definition.id id source)) made rest
          | some logic =>
              let pins := scope.system.pins
              -- Until the snapshot holds them, only the call keeps the children made so far.
              let keeps := made.map Prod.snd ++ scope.effects.flatMap Effect.keeps
              let spec : ActorSpec :=
                { id := some id, parent := some scope.session, source := some source,
                  systemId := child.systemId, snapshot := some child.snapshot }
              let (system, result) := m.spawn (scope.system.pinning keeps) logic spec
              let scope := { scope with system := { system with pins } }
              match result with
              | .error e => (scope, .error e)
              | .ok session =>
                  restoreChildren { scope with effects := scope.effects ++ [.start session] }
                    (SortedMap.insert id session made) rest

/-- The position of a stored state. -/
def storedState (what id : String) : Except ActorError Nat :=
  match m.definition.find? id with
  | some i => .ok i
  | none => .error (.restore ("unknown " ++ what ++ " '" ++ id ++ "'"))

def storedStates : List String → Except ActorError (List Nat)
  | [] => .ok []
  | id :: rest => do
      let i ← m.storedState "state" id
      let others ← storedStates rest
      .ok (i :: others)

def storedHistory (done : HistoryValue) :
    List (String × List String) → Except ActorError HistoryValue
  | [] => .ok done
  | (id, ids) :: rest => do
      let i ← m.storedState "history state" id
      let states ← m.storedStates ids
      storedHistory (SortedMap.insert i states done) rest

/-- The stored snapshot without its children. -/
def restoreOwn (stored : PersistedSnapshot) : Except ActorError MachineSnapshot := do
  let value ← match stored.value with
    | some value => Except.ok value
    | none => .error (.restore "snapshot has no state value")
  let config ← m.definition.ofValue value
  let history ← m.storedHistory [] stored.history
  .ok { MachineSnapshot.start m.definition stored.context with
    config
    history
    status := stored.status
    output := stored.output
    error := stored.error }

/-- Reports a snapshot that was taken from another definition. -/
def checkOrigin (stored : PersistedSnapshot) (sys : System) : System :=
  match stored.checksum with
  | none => sys
  | some found =>
      if found = m.definition.checksum then sys
      else sys.note (.otherDefinition m.definition.id m.definition.checksum found)

/-- Brings a stored snapshot back, children included. -/
def restore (scope : Scope) (stored : PersistedSnapshot) :
    Scope × Except ActorError MachineSnapshot :=
  let scope := { scope with system := m.checkOrigin stored scope.system }
  match m.restoreOwn stored with
  | .error e => (scope, .error e)
  | .ok s =>
      match m.restoreChildren scope [] stored.children with
      | (scope, .error e) => (scope, .error e)
      | (scope, .ok children) => (scope, .ok { s with children }.refresh)

end Machine

end Statechart
