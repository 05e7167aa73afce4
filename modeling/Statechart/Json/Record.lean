import Statechart.Json.Basic

/-!
# Records in JSON

A record with named fields is written as an object, or as an array of its fields in order. An
object may hold other fields too, but no field of the record twice; an array may end early, but
holds nothing beyond the last field. An absent optional field may also be written `null`.
-/

namespace Statechart.Json

/-- Whether a key occurs more than once. -/
def repeats (key : String) (fields : List (String × Json)) : Bool :=
  decide (1 < (fields.filter fun field => field.1 = key).length)

/-- The fields of a record that is written as an object. -/
def objectRecord? (names : List String) : Json → Option (String → Option Json)
  | .obj fields =>
      if names.any fun name => repeats name fields then none
      else some fun name => field? name fields
  | _ => none

/-- The fields of a record in either form. -/
def record? (names : List String) : Json → Option (String → Option Json)
  | .arr items =>
      if items.length ≤ names.length then some fun name => field? name (names.zip items)
      else none
  | j => objectRecord? names j

/-- A field that has to be there. -/
def required? {α : Type} (read : Json → Option α) : Option Json → Option α
  | some j => read j
  | none => none

/-- A field with a value of its own when it is absent. -/
def defaulted? {α : Type} (default : α) (read : Json → Option α) : Option Json → Option α
  | some j => read j
  | none => some default

/-- A field that may be absent or `null`. -/
def optional? {α : Type} (read : Json → Option α) : Option Json → Option (Option α)
  | none => some none
  | some .null => some none
  | some j => (read j).map some

/-- Reads every item of a list. -/
def readAll? {α : Type} (read : Json → Option α) : List Json → Option (List α)
  | [] => some []
  | j :: js => do
      let a ← read j
      let rest ← readAll? read js
      some (a :: rest)

/-- Reads the items of an array. -/
def array? {α : Type} (read : Json → Option α) : Json → Option (List α)
  | .arr items => readAll? read items
  | _ => none

/-- Reads one of several names, written as a string or as an object with that name alone, whose
value is `null`; where `emptyObject` is set it may be an empty object as well. -/
def name? {α : Type} (emptyObject : Bool) (read : String → Option α) : Json → Option α
  | .str s => read s
  | .obj [(s, .null)] => read s
  | .obj [(s, .obj [])] => if emptyObject then read s else none
  | _ => none

/-- A free-form value. -/
def any? (j : Json) : Option Json := some (dedup j)

/-! ## Writing -/

/-- A field that is left out when there is nothing to write. -/
def optionalField {α : Type} (key : String) (write : α → Json) : Option α → List (String × Json)
  | none => []
  | some a => [(key, write a)]

/-- A field that is left out when it is `null`. -/
def nonNullField (key : String) (j : Json) : List (String × Json) :=
  if j.isNull then [] else [(key, j)]

/-- A list that is left out when it is empty. -/
def listField {α : Type} (key : String) (write : α → Json) : List α → List (String × Json)
  | [] => []
  | items => [(key, .arr (items.map write))]

end Statechart.Json
