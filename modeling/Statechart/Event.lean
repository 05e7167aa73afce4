import Statechart.Json.Record
import Statechart.Text.Split

/-!
# Events

An event has a name, a payload, the session of the actor that sent it and a kind. The names that
the runtime itself produces are reserved: they begin with `chart.`, `done.state.`, `done.actor.` or
`error.platform.`, or are `error.execution`.
-/

namespace Statechart

/-- Where an event comes from: outside or another actor, the actor itself, or the runtime. -/
inductive EventKind where
  | external
  | internal
  | platform
deriving DecidableEq, Inhabited

namespace EventKind

def text : EventKind → String
  | .external => "external"
  | .internal => "internal"
  | .platform => "platform"

def ofText? : String → Option EventKind
  | "external" => some .external
  | "internal" => some .internal
  | "platform" => some .platform
  | _ => none

@[simp] theorem ofText?_text (k : EventKind) : ofText? k.text = some k := by
  cases k <;> rfl

end EventKind

/-- An event. -/
structure Event where
  name : String
  data : Json := .null
  origin : Option String := none
  kind : EventKind := .external
deriving DecidableEq, Inhabited

namespace Event

/-! ## Reserved names -/

/-- Handled first when an actor starts. -/
def initName : String := "chart.init"

/-- Handled last, when an actor stops. -/
def stopName : String := "chart.stop"

/-- Raised when an action fails. -/
def executionName : String := "error.execution"

/-- Begins the name of every event of the runtime's own life cycle. -/
def chartStart : String := "chart."

/-- Begins the name of an event that drives a delayed transition. -/
def afterStart : String := "chart.after."

/-- Begins the name of the event that a failed child sends to its parent. -/
def platformErrorStart : String := "error.platform."

/-- Begins the name of the event raised for a completed state. -/
def doneStateStart : String := "done.state."

/-- Begins the name of the event that a completed child sends to its parent. -/
def doneActorStart : String := "done.actor."

/-! ## Making events -/

def named (name : String) : Event := { name }

def internal (name : String) (data : Json) : Event := { name, data, kind := .internal }

def platform (name : String) (data : Json) : Event := { name, data, kind := .platform }

/-- The event raised when the state `id` completes. -/
def doneState (id : String) (output : Json) : Event := internal (doneStateStart ++ id) output

/-- The event that tells a parent that its child `id` is done. -/
def doneActor (id : String) (output : Json) : Event := platform (doneActorStart ++ id) output

/-- The event that tells a parent that its child `id` has failed. -/
def errorPlatform (id : String) (data : Json) : Event :=
  platform (platformErrorStart ++ id) data

/-- The event raised by a failed action. -/
def errorExecution (data : Json) : Event := internal executionName data

/-! ## Kinds of events -/

/-- Whether an actor fails if no transition takes the event. -/
def isError (e : Event) : Bool :=
  e.name == executionName || Text.startsWith platformErrorStart e.name

/-- Whether a name is reserved for the runtime. -/
def isReserved (name : String) : Bool :=
  Text.startsWith chartStart name || name == executionName ||
    Text.startsWith platformErrorStart name || Text.startsWith doneStateStart name ||
    Text.startsWith doneActorStart name

def isBuiltin (e : Event) : Bool := isReserved e.name

/-- The id of the child whose completion or failure the event reports. -/
def completedChild? (e : Event) : Option String :=
  match Text.stripStart? doneActorStart e.name with
  | some id => some id
  | none => Text.stripStart? platformErrorStart e.name

/-! ## JSON -/

/-- The fields of a written event, in order. -/
def fieldNames : List String := ["type", "data", "origin", "kind"]

/-- An event without payload or origin is written without these fields. -/
def toJson (e : Event) : Json :=
  .obj (("type", .str e.name) :: Json.nonNullField "data" e.data ++
    Json.optionalField "origin" .str e.origin ++ [("kind", .str e.kind.text)])

/-- Reads an event; only its name has to be there. -/
def ofJson? (j : Json) : Option Event := do
  let field ← j.record? fieldNames
  let name ← Json.required? Json.asStr? (field "type")
  let data ← Json.defaulted? .null Json.any? (field "data")
  let origin ← Json.optional? Json.asStr? (field "origin")
  let kind ← Json.defaulted? .external (Json.name? false EventKind.ofText?) (field "kind")
  some { name, data, origin, kind }

end Event

end Statechart
