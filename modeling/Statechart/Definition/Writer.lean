import Statechart.Definition.Config
import Statechart.Json.Record

/-!
# Writing definitions

`MachineConfig.toJson` writes a definition so that reading it gives the definition back. Lists of
transitions, and lists that may be written as a single item, are always written as arrays; what is
absent, empty or false is left out. Fields come in a fixed order, on which the checksum of a
definition rests.
-/

namespace Statechart

open Json

/-! ## Guards -/

namespace GuardConfig

mutual

def toJson : GuardConfig → Json
  | .named name => .str name
  | .expr text => .obj [("expr", .str text)]
  | .not inner => .obj [("not", toJson inner)]
  | .and guards => .obj [("and", .arr (listToJson guards))]
  | .or guards => .obj [("or", .arr (listToJson guards))]
  | .stateIn id => .obj [("stateIn", .str id)]
  | .parameterized name params => .obj (("type", .str name) :: nonNullField "params" params)

def listToJson : List GuardConfig → List Json
  | [] => []
  | g :: rest => toJson g :: listToJson rest

end

end GuardConfig

/-! ## Actions -/

def EventConfig.toJson : EventConfig → Json
  | .name s => .str s
  | .event e => e.toJson

def DelayConfig.toJson : DelayConfig → Json
  | .ms n => .nat n
  | .named name => .str name

namespace ActionConfig

/-- The fields that say when an event is sent and by which id it is cancelled. -/
def timing (delay : Option DelayConfig) (id : Option String) : List (String × Json) :=
  optionalField "delay" DelayConfig.toJson delay ++ optionalField "id" .str id

mutual

def toJson : ActionConfig → Json
  | .named name => .str name
  | .assign assignment => .obj [("type", .str "assign"), ("assignment", .obj assignment)]
  | .raise event delay id =>
      .obj (("type", .str "raise") :: ("event", event.toJson) :: timing delay id)
  | .sendTo target event delay id =>
      .obj (("type", .str "sendTo") :: ("to", .str target) :: ("event", event.toJson) ::
        timing delay id)
  | .sendParent event delay id =>
      .obj (("type", .str "sendParent") :: ("event", event.toJson) :: timing delay id)
  | .log label message =>
      .obj (("type", .str "log") :: optionalField "label" .str label ++
        optionalField "message" (·) message)
  | .cancel id => .obj [("type", .str "cancel"), ("id", .str id)]
  | .stopChild id => .obj [("type", .str "stopChild"), ("id", .str id)]
  | .spawnChild source id systemId input =>
      .obj (("type", .str "spawnChild") :: ("src", .str source) :: optionalField "id" .str id ++
        optionalField "systemId" .str systemId ++ optionalField "input" (·) input)
  | .choose branches =>
      .obj [("type", .str "choose"), ("branches", .arr (branchesToJson branches))]
  | .parameterized name params => .obj (("type", .str name) :: nonNullField "params" params)

def branchesToJson : List (BranchConfig ActionConfig) → List Json
  | [] => []
  | ⟨guard, actions⟩ :: rest =>
      .obj (optionalField "guard" GuardConfig.toJson guard ++
        (if actions.isEmpty then [] else [("actions", .arr (listToJson actions))])) ::
        branchesToJson rest

def listToJson : List ActionConfig → List Json
  | [] => []
  | a :: rest => toJson a :: listToJson rest

end

end ActionConfig

/-! ## Transitions -/

def TransitionConfig.toJson (t : TransitionConfig) : Json :=
  .obj (listField "target" .str t.target ++ optionalField "guard" GuardConfig.toJson t.guard ++
    listField "actions" ActionConfig.toJson t.actions ++
    (if t.reenter then [("reenter", .bool true)] else []) ++
    optionalField "description" .str t.description)

def TransitionConfig.listToJson (ts : List TransitionConfig) : Json :=
  .arr (ts.map TransitionConfig.toJson)

def InvokeConfig.toJson (i : InvokeConfig) : Json :=
  .obj (optionalField "id" .str i.id ++ [("src", .str i.source)] ++
    optionalField "systemId" .str i.systemId ++ optionalField "input" (·) i.input ++
    optionalField "onDone" TransitionConfig.listToJson i.onDone ++
    optionalField "onError" TransitionConfig.listToJson i.onError)

/-! ## States -/

/-- Entries of an object, each written by `write`. -/
def entriesToJson {α : Type} (write : α → Json) (entries : List (String × α)) : Json :=
  .obj (entries.map fun entry => (entry.1, write entry.2))

/-- The fields of a state, with those of its child states already written. -/
def StateAttributes.toFields (s : StateAttributes) (states : Option Json) : List (String × Json) :=
  optionalField "id" .str s.id ++
  optionalField "type" (fun k => .str (StateKind.text k)) s.kind ++
  optionalField "initial" .str s.initial ++
  optionalField "states" (·) states ++
  optionalField "on" (entriesToJson (Json.ofOption TransitionConfig.listToJson)) s.on ++
  optionalField "always" TransitionConfig.listToJson s.always ++
  optionalField "after" (entriesToJson TransitionConfig.listToJson) s.after ++
  optionalField "onDone" TransitionConfig.listToJson s.onDone ++
  listField "entry" ActionConfig.toJson s.entry ++
  listField "exit" ActionConfig.toJson s.exit ++
  listField "invoke" InvokeConfig.toJson s.invoke ++
  listField "tags" .str s.tags ++
  optionalField "output" (·) s.output ++
  optionalField "history" (fun k => .str (HistoryKind.text k)) s.history ++
  listField "target" .str s.target ++
  optionalField "description" .str s.description ++
  optionalField "meta" (·) s.metadata

namespace StateConfig

mutual

/-- The fields of a state and of everything below it. -/
def toFields : StateConfig → List (String × Json)
  | .node attributes none => attributes.toFields none
  | .node attributes (some states) => attributes.toFields (some (.obj (statesToFields states)))

def statesToFields : List (String × StateConfig) → List (String × Json)
  | [] => []
  | (key, state) :: rest => (key, .obj (toFields state)) :: statesToFields rest

end

end StateConfig

def MachineConfig.toJson (m : MachineConfig) : Json :=
  .obj (nonNullField "context" m.context ++
    (if m.strict then [("strict", .bool true)] else []) ++ m.root.toFields)

end Statechart
