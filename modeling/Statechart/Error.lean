import Statechart.Json.Printer
import Statechart.Guard.Parser

/-!
# Errors

What can go wrong while a definition is built (`BuildError`), in a function that an application
supplies (`ActionError`), and while machines and actors run (`ActorError`). Each error has a code
and a message; a run-time error also has a payload for the event that carries it.
-/

namespace Statechart

/-! ## Building a definition -/

inductive BuildError where
  | invalidDefinition (reason : String)
  | missingInitial (state : String)
  | invalidInitial (state initial : String)
  | unknownTarget (source target : String)
  | duplicateId (id : String)
  | invalidGuard (fault : Guard.Fault)
  /-- The document is no definition at all. -/
  | malformed
deriving DecidableEq

namespace BuildError

def code : BuildError → String
  | .invalidDefinition _ => "INVALID_DEFINITION"
  | .missingInitial _ => "MISSING_INITIAL"
  | .invalidInitial _ _ => "INVALID_INITIAL"
  | .unknownTarget _ _ => "UNKNOWN_TARGET"
  | .duplicateId _ => "DUPLICATE_ID"
  | .invalidGuard _ => "INVALID_GUARD"
  | .malformed => "BAD_REQUEST"

def message : BuildError → String
  | .invalidDefinition reason => "invalid machine definition: " ++ reason
  | .missingInitial state => "state '" ++ state ++ "' is compound but has no initial state"
  | .invalidInitial state initial =>
      "initial state '" ++ initial ++ "' of '" ++ state ++ "' is not a child state"
  | .unknownTarget source target =>
      "transition target '" ++ target ++ "' from '" ++ source ++ "' does not resolve to a state"
  | .duplicateId id => "duplicate state id: " ++ id
  | .invalidGuard fault => "invalid guard expression: " ++ fault.message
  | .malformed => "malformed document"

end BuildError

/-! ## Supplied functions -/

/-- The error of a function that an application supplies. -/
structure ActionError where
  message : String
  data : Json := .null
deriving DecidableEq

/-- The payload of the event raised for the error. -/
def ActionError.toJson (e : ActionError) : Json :=
  .obj [("message", .str e.message), ("data", e.data)]

/-! ## Running -/

/-- The three behaviours an actor can have. -/
inductive LogicKind where
  | machine
  | transition
  | task
deriving DecidableEq

def LogicKind.text : LogicKind → String
  | .machine => "machine"
  | .transition => "transition"
  | .task => "task"

inductive ActorError where
  | missingImplementation (kind name : String)
  | actionExecution (actor message : String) (data : Json)
  | communication (actor target : String)
  | strictModeViolation (machine event : String)
  | notStarted (actor : String)
  | unhandled (actor : String) (data : Json)
  | restore (reason : String)
  | snapshotMismatch (logic : LogicKind)
  /-- A step was given up because it did not come to rest. -/
  | unsettled (actor : String)
deriving DecidableEq

namespace ActorError

def code : ActorError → String
  | .missingImplementation _ _ => "MISSING_IMPLEMENTATION"
  | .actionExecution _ _ _ => "ACTION_EXECUTION"
  | .communication _ _ => "ACTOR_COMMUNICATION"
  | .strictModeViolation _ _ => "STRICT_MODE_VIOLATION"
  | .notStarted _ => "NOT_STARTED"
  | .unhandled _ _ => "UNHANDLED"
  | .restore _ => "RESTORE"
  | .snapshotMismatch _ => "SNAPSHOT_MISMATCH"
  | .unsettled _ => "UNSETTLED"

def message : ActorError → String
  | .missingImplementation kind name =>
      "missing implementation for " ++ kind ++ " '" ++ name ++ "'"
  | .actionExecution actor message _ => "action failed in actor '" ++ actor ++ "': " ++ message
  | .communication actor target => "actor '" ++ actor ++ "' cannot reach '" ++ target ++ "'"
  | .strictModeViolation machine event =>
      "event '" ++ event ++ "' is not accepted by strict machine '" ++ machine ++ "'"
  | .notStarted actor => "actor '" ++ actor ++ "' has not been started"
  | .unhandled actor data => "unhandled error in actor '" ++ actor ++ "': " ++ data.text
  | .restore reason => "cannot restore snapshot: " ++ reason
  | .snapshotMismatch logic => "unexpected snapshot for " ++ logic.text ++ " logic"
  | .unsettled actor => "actor '" ++ actor ++ "' does not settle"

/-- The payload of an event that carries the error. An error that came with a payload of its own
passes that on; every other one is told by its code and message. -/
def toJson : ActorError → Json
  | .actionExecution _ message data => .obj [("message", .str message), ("data", data)]
  | .unhandled _ data => data
  | e => .obj [("code", .str e.code), ("message", .str e.message)]

end ActorError

end Statechart
