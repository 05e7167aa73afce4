import Statechart.Machine

/-!
# Behaviour of actors

How each kind of behaviour starts, reacts to events, stops, and goes on from a stored snapshot. All
state is in the snapshots, so a behaviour can be shared by many actors.
-/

namespace Statechart

/-! ## What reducers and tasks see and do -/

/-- What a reducer or a task knows in a scope. -/
def Scope.surroundings (scope : Scope) : Surroundings where
  id := scope.id
  session := scope.session
  parent := scope.parent
  find := (scope.system.pinning (scope.effects.flatMap Effect.keeps)).find?
  pending := scope.effects.length

/-- Sends events from the actor of a scope, once the step is done. -/
def Scope.send (scope : Scope) (sends : List (Destination × Event)) : Scope :=
  { scope with
    effects := scope.effects ++ sends.map fun (target, event) =>
      .send target { event with origin := some scope.session.text } none none }

/-- Takes the reports and sends of a reducer or a task into its scope. -/
def Scope.absorb {α : Type} (scope : Scope) (o : Outcome α) : Scope :=
  { scope.send o.sends with system := scope.system.report o.reports }

namespace Logic

variable (spawn : Spawner)

/-! ## Beginning -/

def initialSnapshot (scope : Scope) (input : Json) :
    Logic → Scope × Except ActorError Snapshot
  | .machine definition implementations =>
      let (scope, result) :=
        Machine.initialState { definition, implementations, spawn } scope input
      (scope, result.map Snapshot.machine)
  | .reducer initial _ => (scope, .ok (.value { context := initial input, input }))
  | .task _ => (scope, .ok (.value { input }))

def ofStored (stored : PersistedSnapshot) : ValueSnapshot where
  status := stored.status
  context := stored.context
  output := stored.output
  error := stored.error
  input := stored.input

/-- The snapshot to go on from. -/
def restore (scope : Scope) (stored : PersistedSnapshot) :
    Logic → Scope × Except ActorError Snapshot
  | .machine definition implementations =>
      let (scope, result) := Machine.restore { definition, implementations, spawn } scope stored
      (scope, result.map Snapshot.machine)
  | .reducer _ _ => (scope, .ok (.value (ofStored stored)))
  | .task _ => (scope, .ok (.value (ofStored stored)))

/-! ## Running -/

/-- The snapshot after the actor has started, if that changes it: a task runs then. -/
def start (scope : Scope) (s : Snapshot) :
    Logic → Scope × Except ActorError (Option Snapshot)
  | .task run =>
      match s with
      | .machine _ => (scope, .error (.snapshotMismatch .task))
      | .value v =>
          if v.status = .active then
            let o := run scope.surroundings v.input
            (scope.absorb o,
              .ok (some (.value (match o.result with
                | .ok output => { v with status := .done, output := some output }
                | .error e => { v with status := .error, error := some e.toJson }))))
          else (scope, .ok none)
  | _ => (scope, .ok none)

/-- The snapshot after an event. -/
def transition (scope : Scope) (s : Snapshot) (event : Event) :
    Logic → Scope × Except ActorError Snapshot
  | .machine definition implementations =>
      match s with
      | .machine current =>
          let (scope, result) :=
            Machine.transition { definition, implementations, spawn } scope current event
          (scope, result.map Snapshot.machine)
      | .value _ => (scope, .error (.snapshotMismatch .machine))
  | .reducer _ next =>
      match s with
      | .machine _ => (scope, .error (.snapshotMismatch .transition))
      | .value v =>
          if v.status = .active then
            let o := next scope.surroundings v.context event
            (scope.absorb o, .ok (.value { v with context := o.result }))
          else (scope, .ok s)
  | .task _ => (scope, .ok s)

/-- Whether an event may be sent. -/
def accepts (event : Event) : Logic → Except ActorError Unit
  | .machine definition implementations =>
      Machine.accepts { definition, implementations, spawn } event
  | _ => .ok ()

/-- The snapshot after a stop. -/
def stop (scope : Scope) (s : Snapshot) : Logic → Scope × Except ActorError Snapshot
  | .machine definition implementations =>
      match s with
      | .machine current =>
          let (scope, result) :=
            Machine.stop { definition, implementations, spawn } scope current
          (scope, result.map Snapshot.machine)
      | .value _ => (scope, .error (.snapshotMismatch .machine))
  | _ => (scope, .ok s.stopped)

end Logic

end Statechart
