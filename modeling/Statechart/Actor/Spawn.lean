import Statechart.Actor.Behaviour

/-!
# Making and storing actors

An actor gets its session first, then its first snapshot, and is registered once it has that. The
stored form of an actor includes its children.
-/

namespace Statechart

/-! ## Making actors -/

/-- Makes an actor whose behaviours are nested less than `depth` deep. -/
def make : Nat → Spawner
  | 0, sys, _, spec => (sys, .error (.unsettled (spec.id.getD "")))
  | depth + 1, sys, logic, spec =>
      -- The session is used up even if there is to be no first snapshot.
      let (sys, session) := sys.newSession
      let id := spec.id.getD session.text
      let scope : Scope := { system := sys, session, id, parent := spec.parent }
      let (scope, result) := match spec.snapshot with
        | some stored => logic.restore (make depth) scope stored
        | none => logic.initialSnapshot (make depth) scope spec.input
      match result with
      | .error e => (scope.system, .error e)
      | .ok snapshot =>
          (scope.system.register
            { id, session, parent := spec.parent, source := spec.source, systemId := spec.systemId,
              logic, mailbox := {}, snapshot, observers := [], pending := scope.effects },
            .ok session)

/-- How deep behaviours may be nested. -/
def nesting : Nat := 1000

/-- How deep the behaviours of an actor are nested that goes on from a stored snapshot. -/
def ActorSpec.storedDepth (spec : ActorSpec) : Nat :=
  match spec.snapshot with
  | some stored => stored.generations
  | none => 0

/-- Makes an actor, which is not started. Stored children are brought back however deep they are
nested. -/
def spawn : Spawner := fun sys logic spec => make (nesting + spec.storedDepth) sys logic spec

/-- A scope without an actor, for a behaviour that is driven by hand. Its effects pile up. -/
def Scope.detached (sys : System) (id : String) : Scope :=
  let (sys, session) := sys.newSession
  { system := sys, session, id, parent := none }

/-! ## Storing actors -/

/-- The recorded history of a machine by the ids of its states. -/
def historyById (d : Definition Logic) (history : HistoryValue) : List (String × List String) :=
  SortedMap.ofList (history.map fun (h, states) =>
    ((d.node h).id, states.map fun s => (d.node s).id))

/-- The stored form of a machine's snapshot, given that of its children. -/
def storeMachine (d : Definition Logic) (s : MachineSnapshot)
    (children : List (String × PersistedChild PersistedSnapshot)) : PersistedSnapshot where
  status := s.status
  value := some s.value
  context := s.context
  history := historyById d s.history
  children
  tags := s.tags
  output := s.output
  error := s.error
  input := .null
  checksum := some d.checksum

def storeValue (s : ValueSnapshot) : PersistedSnapshot :=
  { PersistedSnapshot.empty with
    status := s.status, context := s.context, output := s.output, error := s.error
    input := s.input }

/-- The stored children, given how an actor is stored. -/
def storeChildren (sys : System) (store : Session → Except ActorError PersistedSnapshot) :
    List (String × Session) →
      Except ActorError (List (String × PersistedChild PersistedSnapshot))
  | [] => .ok []
  | (id, session) :: rest => do
      let snapshot ← store session
      let others ← storeChildren sys store rest
      let a := sys.actor session
      .ok ((id, { source := a.source, systemId := a.systemId, snapshot }) :: others)

/-- The stored form of a snapshot, given how children are stored. -/
def Logic.store (sys : System) (store : Session → Except ActorError PersistedSnapshot)
    (s : Snapshot) : Logic → Except ActorError PersistedSnapshot
  | .machine d _ =>
      match s with
      | .machine current => do
          let children ← storeChildren sys store current.children
          .ok (storeMachine d current children)
      | .value _ => .error (.snapshotMismatch .machine)
  | logic =>
      match s with
      | .value v => .ok (storeValue v)
      | .machine _ => .error (.snapshotMismatch logic.kind)

/-- The stored form of an actor with less than `fuel` generations below it. -/
def System.storeWithin (sys : System) : Nat → Session → Except ActorError PersistedSnapshot
  | 0, s => .error (.unsettled (sys.actor s).id)
  | fuel + 1, s =>
      let a := sys.actor s
      a.logic.store sys (sys.storeWithin fuel) a.snapshot

/-- The stored form of an actor. Every child is made after its parent. -/
def System.store (sys : System) (s : Session) : Except ActorError PersistedSnapshot :=
  sys.storeWithin (sys.nextSession + 1) s

end Statechart
