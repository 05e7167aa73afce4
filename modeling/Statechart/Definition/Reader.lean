import Statechart.Definition.Config
import Statechart.Json.Parser

/-!
# Reading written definitions

`MachineConfig.ofJson?` reads a definition from a JSON document. Where several shapes are allowed
they are tried in a fixed order: a guard is a name, or an object with `expr`, `not`, `and`, `or`,
`stateIn` or `type`; an action is a name, a built-in with its own fields, or any other `type` with
parameters. A built-in whose fields do not fit is therefore a supplied action of that name.
-/

namespace Statechart

namespace Json

/-- Reads an array of items, or one item in place of an array of one. -/
def oneOrMany? {α : Type} (read : Json → Option α) (j : Json) : Option (List α) :=
  match array? read j with
  | some items => some items
  | none => (read j).map ([·])

/-- Reads the entries of an object whose keys are all different. -/
def entries? {α : Type} (read : Json → Option α) : Json → Option (List (String × α))
  | .obj fields =>
      if fields.any fun field => repeats field.1 fields then none
      else readAll fields
  | _ => none
where
  readAll : List (String × Json) → Option (List (String × α))
    | [] => some []
    | (key, j) :: rest => do
        let a ← read j
        let others ← readAll rest
        some ((key, a) :: others)

end Json

open Json

/-! ## Guards -/

namespace GuardConfig

/-- Reads a guard that is nested less than `fuel` deep. -/
def read? : Nat → Json → Option GuardConfig
  | 0, _ => none
  | fuel + 1, j =>
      match j with
      | .str name => some (.named name)
      | _ =>
          expr? j <|> not? fuel j <|> and? fuel j <|> or? fuel j <|> stateIn? j <|>
            parameterized? j
where
  expr? (j : Json) : Option GuardConfig := do
    let field ← j.objectRecord? ["expr"]
    (required? asStr? (field "expr")).map .expr
  not? (fuel : Nat) (j : Json) : Option GuardConfig := do
    let field ← j.objectRecord? ["not"]
    (required? (read? fuel) (field "not")).map .not
  and? (fuel : Nat) (j : Json) : Option GuardConfig := do
    let field ← j.objectRecord? ["and"]
    (required? (array? (read? fuel)) (field "and")).map .and
  or? (fuel : Nat) (j : Json) : Option GuardConfig := do
    let field ← j.objectRecord? ["or"]
    (required? (array? (read? fuel)) (field "or")).map .or
  stateIn? (j : Json) : Option GuardConfig := do
    let field ← j.objectRecord? ["stateIn"]
    (required? asStr? (field "stateIn")).map .stateIn
  parameterized? (j : Json) : Option GuardConfig := do
    let field ← j.objectRecord? ["type", "params"]
    let name ← required? asStr? (field "type")
    let params ← defaulted? .null any? (field "params")
    some (.parameterized name params)

def ofJson? (j : Json) : Option GuardConfig := read? (j.depth + 1) j

end GuardConfig

/-! ## Actions -/

def EventConfig.ofJson? : Json → Option EventConfig
  | .str s => some (.name s)
  | j => (Event.ofJson? j).map .event

def DelayConfig.ofJson? : Json → Option DelayConfig
  | .str name => some (.named name)
  | j => j.asUInt64?.map .ms

namespace ActionConfig

/-- The built-in actions, in the order by which a number may stand for their name. -/
def builtinNames : List String :=
  ["assign", "raise", "sendTo", "sendParent", "log", "cancel", "stopChild", "spawnChild", "choose"]

/-- The name of a built-in, given by itself or by its number. -/
def builtinName? : Json → Option String
  | .str name => if name ∈ builtinNames then some name else none
  | j => j.asUInt64?.bind (builtinNames[·]?)

/-- Splits a tagged record into its tag and the record that is left. -/
def tagged? : Json → Option (Json × Json)
  | .obj fields =>
      if repeats "type" fields then none
      else (field? "type" fields).map fun tag => (tag, .obj (fields.filter (·.1 ≠ "type")))
  | .arr (tag :: items) => some (tag, .arr items)
  | _ => none

/-- Reads an action that is nested less than `fuel` deep. -/
def read? : Nat → Json → Option ActionConfig
  | 0, _ => none
  | fuel + 1, j =>
      match j with
      | .str name => some (.named name)
      | _ => builtin? fuel j <|> parameterized? j
where
  builtin? (fuel : Nat) (j : Json) : Option ActionConfig := do
    let (tag, body) ← tagged? j
    match ← builtinName? tag with
    | "assign" => do
        let field ← body.record? ["assignment"]
        let assignment ← required? object? (field "assignment")
        some (.assign assignment)
    | "raise" => do
        let field ← body.record? ["event", "delay", "id"]
        let event ← required? EventConfig.ofJson? (field "event")
        let delay ← optional? DelayConfig.ofJson? (field "delay")
        let id ← optional? asStr? (field "id")
        some (.raise event delay id)
    | "sendTo" => do
        let field ← body.record? ["to", "event", "delay", "id"]
        let target ← required? asStr? (field "to")
        let event ← required? EventConfig.ofJson? (field "event")
        let delay ← optional? DelayConfig.ofJson? (field "delay")
        let id ← optional? asStr? (field "id")
        some (.sendTo target event delay id)
    | "sendParent" => do
        let field ← body.record? ["event", "delay", "id"]
        let event ← required? EventConfig.ofJson? (field "event")
        let delay ← optional? DelayConfig.ofJson? (field "delay")
        let id ← optional? asStr? (field "id")
        some (.sendParent event delay id)
    | "log" => do
        let field ← body.record? ["label", "message"]
        let label ← optional? asStr? (field "label")
        let message ← optional? any? (field "message")
        some (.log label message)
    | "cancel" => do
        let field ← body.record? ["id"]
        (required? asStr? (field "id")).map .cancel
    | "stopChild" => do
        let field ← body.record? ["id"]
        (required? asStr? (field "id")).map .stopChild
    | "spawnChild" => do
        let field ← body.record? ["src", "id", "systemId", "input"]
        let source ← required? asStr? (field "src")
        let id ← optional? asStr? (field "id")
        let systemId ← optional? asStr? (field "systemId")
        let input ← optional? any? (field "input")
        some (.spawnChild source id systemId input)
    | "choose" => do
        let field ← body.record? ["branches"]
        let branches ← required? (array? (branch? fuel)) (field "branches")
        some (.choose branches)
    | _ => none
  branch? (fuel : Nat) (j : Json) : Option (BranchConfig ActionConfig) := do
    let field ← j.record? ["guard", "actions"]
    let guard ← optional? GuardConfig.ofJson? (field "guard")
    let actions ← defaulted? [] (oneOrMany? (read? fuel)) (field "actions")
    some { guard, actions }
  object? : Json → Option (List (String × Json))
    | .obj fields => match dedup (.obj fields) with
      | .obj fields => some fields
      | _ => none
    | _ => none
  parameterized? (j : Json) : Option ActionConfig := do
    let field ← j.objectRecord? ["type", "params"]
    let name ← required? asStr? (field "type")
    let params ← defaulted? .null any? (field "params")
    some (.parameterized name params)

def ofJson? (j : Json) : Option ActionConfig := read? (j.depth + 1) j

end ActionConfig

/-! ## Transitions -/

namespace TransitionConfig

def ofJson? (j : Json) : Option TransitionConfig := do
  let field ← j.record? ["target", "guard", "actions", "reenter", "description"]
  let target ← defaulted? [] (oneOrMany? asStr?) (field "target")
  let guard ← optional? GuardConfig.ofJson? (field "guard")
  let actions ← defaulted? [] (oneOrMany? ActionConfig.ofJson?) (field "actions")
  let reenter ← defaulted? false asBool? (field "reenter")
  let description ← optional? asStr? (field "description")
  some { target, guard, actions, reenter, description }

/-- One transition of a list, in full or as its target alone. -/
def entry? : Json → Option TransitionConfig
  | .str target => some (toTarget target)
  | j => ofJson? j

/-- A target, a transition, or an array of either. -/
def list? : Json → Option (List TransitionConfig)
  | .str target => some [toTarget target]
  | .obj fields => (ofJson? (.obj fields)).map ([·])
  | .arr items => readAll? entry? items
  | _ => none

end TransitionConfig

def InvokeConfig.ofJson? (j : Json) : Option InvokeConfig := do
  let field ← j.record? ["id", "src", "systemId", "input", "onDone", "onError"]
  let id ← optional? asStr? (field "id")
  let source ← required? asStr? (field "src")
  let systemId ← optional? asStr? (field "systemId")
  let input ← optional? any? (field "input")
  let onDone ← optional? TransitionConfig.list? (field "onDone")
  let onError ← optional? TransitionConfig.list? (field "onError")
  some { id, source, systemId, input, onDone, onError }

/-! ## States -/

/-- The fields of a state, in order. -/
def StateConfig.fieldNames : List String :=
  ["id", "type", "initial", "states", "on", "always", "after", "onDone", "entry", "exit", "invoke",
    "tags", "output", "history", "target", "description", "meta"]

/-- Reads a forbidden transition or a list of transitions. -/
def forbiddenOr? : Json → Option (Option (List TransitionConfig))
  | .null => some none
  | j => (TransitionConfig.list? j).map some

def StateAttributes.ofFields? (field : String → Option Json) : Option StateAttributes := do
  let id ← optional? asStr? (field "id")
  let kind ← optional? (name? true StateKind.ofText?) (field "type")
  let initial ← optional? asStr? (field "initial")
  let on ← optional? (entries? forbiddenOr?) (field "on")
  let always ← optional? TransitionConfig.list? (field "always")
  let after ← optional? (entries? TransitionConfig.list?) (field "after")
  let onDone ← optional? TransitionConfig.list? (field "onDone")
  let entry ← defaulted? [] (oneOrMany? ActionConfig.ofJson?) (field "entry")
  let exit ← defaulted? [] (oneOrMany? ActionConfig.ofJson?) (field "exit")
  let invoke ← defaulted? [] (oneOrMany? InvokeConfig.ofJson?) (field "invoke")
  let tags ← defaulted? [] (oneOrMany? asStr?) (field "tags")
  let output ← optional? any? (field "output")
  let history ← optional? (name? true HistoryKind.ofText?) (field "history")
  let target ← defaulted? [] (oneOrMany? asStr?) (field "target")
  let description ← optional? asStr? (field "description")
  let metadata ← optional? any? (field "meta")
  some {
    id, kind, initial, on, always, after, onDone, entry, exit, invoke, tags, output, history
    target, description, metadata }

namespace StateConfig

/-- Reads a state whose subtree is nested less than `fuel` deep. -/
def read? : Nat → Json → Option StateConfig
  | 0, _ => none
  | fuel + 1, j => do
      let field ← j.record? fieldNames
      let attributes ← StateAttributes.ofFields? field
      let states ← optional? (entries? (read? fuel)) (field "states")
      some (.node attributes states)

end StateConfig

/-! ## Definitions -/

namespace MachineConfig

/-- Reads a definition: the fields of the root state, with the context and the strict flag. -/
def ofJson? (j : Json) : Option MachineConfig := do
  let field ← j.objectRecord? ("context" :: "strict" :: StateConfig.fieldNames)
  let context ← defaulted? .null any? (field "context")
  let strict ← defaulted? false asBool? (field "strict")
  let attributes ← StateAttributes.ofFields? field
  let states ← optional? (entries? (StateConfig.read? (j.depth + 1))) (field "states")
  some { context, strict, root := .node attributes states }

/-- Reads a definition from a JSON text. -/
def ofText? (text : String) : Option MachineConfig := (parse? text).bind ofJson?

end MachineConfig

end Statechart
