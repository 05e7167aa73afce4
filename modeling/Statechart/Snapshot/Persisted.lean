import Statechart.Json.Outline
import Statechart.Snapshot

/-!
# Persisted snapshots

The form in which snapshots are stored: states and history by id, children with their snapshots in
place, and the checksum of the definition. It is written as JSON without the fields that hold
nothing, and read back.
-/

namespace Statechart

/-- A stored child. Only a child that was spawned by key can be brought back. -/
structure PersistedChild (S : Type) where
  source : Option String
  systemId : Option String
  snapshot : S

structure PersistedSnapshot where
  status : SnapshotStatus
  /-- Absent for reducers and tasks. -/
  value : Option StateValue
  context : Json
  /-- What history states have recorded, all states by id. -/
  history : List (String × List String)
  children : List (String × PersistedChild PersistedSnapshot)
  tags : List String
  output : Option Json
  error : Option Json
  input : Json
  /-- Identifies the definition that the snapshot was taken from. -/
  checksum : Option String

namespace PersistedSnapshot

def empty : PersistedSnapshot where
  status := .active
  value := none
  context := .null
  history := []
  children := []
  tags := []
  output := none
  error := none
  input := .null
  checksum := none

instance : Inhabited PersistedSnapshot := ⟨empty⟩

mutual

/-- How many generations of children a stored snapshot holds. -/
def generations : PersistedSnapshot → Nat
  | ⟨_, _, _, _, children, _, _, _, _, _⟩ => generationsAll children

def generationsAll : List (String × PersistedChild PersistedSnapshot) → Nat
  | [] => 0
  | (_, ⟨_, _, snapshot⟩) :: rest => max (generations snapshot + 1) (generationsAll rest)

end

/-! ## Equality -/

/-- A stored null is not the same as nothing. -/
def sameOption : Option Json → Option Json → Bool
  | none, none => true
  | some a, some b => a.same b
  | _, _ => false

mutual

/-- Equality up to the order of fields in JSON values. -/
def same : PersistedSnapshot → PersistedSnapshot → Bool
  | ⟨status, value, context, history, children, tags, output, error, input, checksum⟩,
    ⟨status', value', context', history', children', tags', output', error', input', checksum'⟩ =>
      status == status' && value == value' && context.same context' && history == history' &&
        sameChildren children children' && tags == tags' && sameOption output output' &&
        sameOption error error' && input.same input' && checksum == checksum'

def sameChildren : List (String × PersistedChild PersistedSnapshot) →
    List (String × PersistedChild PersistedSnapshot) → Bool
  | [], [] => true
  | (id, ⟨source, systemId, snapshot⟩) :: rest,
    (id', ⟨source', systemId', snapshot'⟩) :: rest' =>
      id == id' && source == source' && systemId == systemId' && same snapshot snapshot' &&
        sameChildren rest rest'
  | _, _ => false

end

/-! ## Writing -/

/-- An object that is left out when it is empty. -/
def nonEmptyObject (key : String) : List (String × Json) → List (String × Json)
  | [] => []
  | fields => [(key, .obj fields)]

mutual

/-- Only status and context are always written. -/
def toJson : PersistedSnapshot → Json
  | ⟨status, value, context, history, children, tags, output, error, input, checksum⟩ =>
      .obj (("status", .str status.text) ::
        Json.optionalField "value" StateValue.toJson value ++
        [("context", context)] ++
        nonEmptyObject "historyValue"
          (history.map fun (id, states) => (id, .arr (states.map Json.str))) ++
        nonEmptyObject "children" (childrenToJson children) ++
        Json.listField "tags" Json.str tags ++
        Json.optionalField "output" id output ++
        Json.optionalField "error" id error ++
        Json.nonNullField "input" input ++
        Json.optionalField "checksum" Json.str checksum)

def childrenToJson : List (String × PersistedChild PersistedSnapshot) → List (String × Json)
  | [] => []
  | (id, ⟨source, systemId, snapshot⟩) :: rest =>
      (id, .obj (Json.optionalField "src" Json.str source ++
        Json.optionalField "systemId" Json.str systemId ++
        [("snapshot", toJson snapshot)])) :: childrenToJson rest

end

/-! ## Reading -/

/-- The fields of a stored snapshot, in order. -/
def fieldNames : List String :=
  ["status", "value", "context", "historyValue", "children", "tags", "output", "error", "input",
    "checksum"]

/-- The fields of a stored child, in order. -/
def childFieldNames : List String := ["src", "systemId", "snapshot"]

/-- Reads the values of all fields. -/
def readFields? {α : Type} (read : Json → Option α) :
    List (String × Json) → Option (List (String × α))
  | [] => some []
  | (key, j) :: rest => do
      let a ← read j
      let others ← readFields? read rest
      some ((key, a) :: others)

/-- Reads the entries of an object, in the order of the keys. -/
def entries? {α : Type} (read : Json → Option α) : Json → Option (List (String × α))
  | .obj fields => (readFields? read fields).map SortedMap.ofList
  | _ => none

/-- Reads a child, given how its snapshot is read. -/
def childOfJson? (read : Json → Option PersistedSnapshot) (j : Json) :
    Option (PersistedChild PersistedSnapshot) := do
  let field ← j.record? childFieldNames
  let source ← Json.optional? Json.asStr? (field "src")
  let systemId ← Json.optional? Json.asStr? (field "systemId")
  let snapshot ← Json.required? read (field "snapshot")
  some { source, systemId, snapshot }

/-- Reads a snapshot whose children are nested less than `fuel` deep. -/
def ofJsonWithin : Nat → Json → Option PersistedSnapshot
  | 0, _ => none
  | fuel + 1, j => do
      let field ← j.record? fieldNames
      let status ← Json.required? (Json.name? false SnapshotStatus.ofText?) (field "status")
      let value ← Json.optional? StateValue.ofJson? (field "value")
      let context ← Json.defaulted? .null Json.any? (field "context")
      let history ← Json.defaulted? [] (entries? (Json.array? Json.asStr?)) (field "historyValue")
      let children ←
        Json.defaulted? [] (entries? (childOfJson? (ofJsonWithin fuel))) (field "children")
      let tags ← Json.defaulted? [] (Json.array? Json.asStr?) (field "tags")
      let output ← Json.optional? Json.any? (field "output")
      let error ← Json.optional? Json.any? (field "error")
      let input ← Json.defaulted? .null Json.any? (field "input")
      let checksum ← Json.optional? Json.asStr? (field "checksum")
      some { status, value, context, history, children, tags, output, error, input, checksum }

/-- Reads a stored snapshot. -/
def ofJson? (j : Json) : Option PersistedSnapshot := ofJsonWithin (j.depth + 1) j

/-- The places in a stored snapshot where other fields may stand. -/
inductive Place where
  | snapshot
  | children
  | child

/-- How much is read of the fields of a record: all of its own, nothing of others. -/
def ownField (names : List String) (name : String) : Json.Extent Place :=
  if names.contains name then .all else .nothing

/-- The fields of snapshots and children, in either form of a record. -/
def outline : Json.Outline Place where
  field
    | .snapshot, name => if name = "children" then .part .children else ownField fieldNames name
    | .children, _ => .part .child
    | .child, name => if name = "snapshot" then .part .snapshot else ownField childFieldNames name
  item
    | .snapshot, i => if fieldNames[i]? = some "children" then .part .children else .all
    | .children, _ => .all
    | .child, i => if childFieldNames[i]? = some "snapshot" then .part .snapshot else .all

/-- Reads a stored snapshot from JSON text. -/
def ofText? (text : String) : Option PersistedSnapshot :=
  (Json.parseOutlined? outline .snapshot text).bind ofJson?

end PersistedSnapshot

end Statechart
