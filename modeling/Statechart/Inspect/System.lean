import Statechart.Inspect.Definition
import Statechart.System

/-!
# Running actors for inspection

A JSON view of snapshots, of actors with their children, and of what has become visible outside.
-/

namespace Statechart

/-! ## Snapshots -/

def ExecutedAction.inspect (a : ExecutedAction) : Json :=
  .obj (("type", .str a.kind) :: Json.nonNullField "params" a.params)

def MachineSnapshot.inspect (s : MachineSnapshot) : Json :=
  let ids (states : List Nat) : List String := states.map fun i => (s.definition.node i).id
  .obj ([("status", .str s.status.text), ("value", s.value.toJson), ("context", s.context),
    ("states", .strings s.stateIds),
    ("history", .obj (s.history.map fun (h, states) =>
      ((s.definition.node h).id, .strings (ids states)))),
    ("tags", .strings s.tags), ("changed", .bool s.changed),
    ("actions", .arr (s.actions.map ExecutedAction.inspect))] ++
    Json.optionalField "output" id s.output ++ Json.optionalField "error" id s.error)

def ValueSnapshot.inspect (s : ValueSnapshot) : Json :=
  .obj ([("status", .str s.status.text), ("context", s.context), ("input", s.input)] ++
    Json.optionalField "output" id s.output ++ Json.optionalField "error" id s.error)

def Snapshot.inspect : Snapshot → Json
  | .machine s => s.inspect
  | .value s => s.inspect

/-! ## Actors -/

/-- An actor with at most `fuel` generations below it. -/
def System.inspectWithin (sys : System) : Nat → Session → Json
  | 0, _ => .null
  | fuel + 1, s =>
      let a := sys.actor s
      .obj ([("id", .str a.id), ("sessionId", .str a.session.text)] ++
        Json.optionalField "systemId" .str a.systemId ++ Json.optionalField "src" .str a.source ++
        Json.optionalField "parent" (fun p => .str p.text) a.parent ++
        [("logic", .str a.logic.kind.text), ("status", .str a.status.text),
          ("snapshot", a.snapshot.inspect)] ++
        Json.listField "children" (sys.inspectWithin fuel) a.snapshot.sessions)

/-- An actor with its children. Every child is made after its parent. -/
def System.inspect (sys : System) (s : Session) : Json :=
  sys.inspectWithin (sys.nextSession + 1) s

/-- The actor that a path of child ids leads to. -/
def System.descendant? (sys : System) (s : Session) : List String → Option Session
  | [] => some s
  | id :: rest =>
      match SortedMap.find? id (sys.actor s).snapshot.children with
      | some child => sys.descendant? child rest
      | none => none

/-- The number of actors and timers, and the time unless it is the time of day. -/
def System.inspectTotals (sys : System) (timed : Bool) : Json :=
  .obj ([("actors", .nat sys.actorCount), ("timers", .nat sys.scheduler.size)] ++
    if timed then
      [("now", .nat sys.clock.now), ("nextDue", .ofOption .nat sys.scheduler.nextDue?)]
    else [])

/-! ## Records -/

def Notice.inspect (n : Notice) : Json :=
  .obj [("level", .str n.level.text), ("message", .str n.message), ("fields", .obj n.fields)]

/-- A record, where notices only count if they are of certain levels. -/
def Record.inspect? (levels : List String) : Record → Option Json
  | .line content => some content
  | .logged label actor value =>
      some (.obj [("log", .str (label.getD "")), ("actor", .str actor), ("value", value)])
  | .notice n => if levels.contains n.level.text then some n.inspect else none

/-- Takes what has become visible since the last time. -/
def System.takeRecords (sys : System) (levels : List String) : System × List Json :=
  ({ sys with records := [] }, sys.records.reverse.filterMap (Record.inspect? levels))

end Statechart
