import Statechart.Json.Basic
import Statechart.SortedMap
import Statechart.Text.Split

/-!
# State values

A state value names the active leaf of every active branch: `"green"` for a flat machine, an object
with an entry for each region where states are parallel or nested. `includes` says when one value
contains another, and `ofPath` reads a dotted path as the value that it asks for.
-/

namespace Statechart

/-- An active leaf, or the active branches with their values in the order of their keys. -/
inductive StateValue where
  | leaf (key : String)
  | branch (fields : List (String × StateValue))
deriving Inhabited

namespace StateValue

/-- A branch from entries in any order; the last entry of a key counts. -/
def ofFields (fields : List (String × StateValue)) : StateValue :=
  .branch (SortedMap.ofList fields)

/-- The leaf's key, for a leaf. -/
def asLeaf? : StateValue → Option String
  | .leaf key => some key
  | .branch _ => none

/-! ## Equality -/

mutual

def beq : StateValue → StateValue → Bool
  | .leaf a, .leaf b => a == b
  | .branch a, .branch b => beqFields a b
  | _, _ => false

def beqFields : List (String × StateValue) → List (String × StateValue) → Bool
  | [], [] => true
  | (k, a) :: as, (l, b) :: bs => k == l && beq a b && beqFields as bs
  | _, _ => false

end

mutual

theorem beq_iff : ∀ a b : StateValue, beq a b = true ↔ a = b
  | .leaf _, b => by cases b <;> simp [beq]
  | .branch as, b => by cases b <;> simp [beq, beqFields_iff as]

theorem beqFields_iff : ∀ as bs : List (String × StateValue), beqFields as bs = true ↔ as = bs
  | [], bs => by cases bs <;> simp [beqFields]
  | (k, a) :: as, bs => by
      cases bs <;> simp [beqFields, beq_iff a, beqFields_iff as, Prod.ext_iff]

end

instance : DecidableEq StateValue := fun a b => decidable_of_iff _ (beq_iff a b)

/-! ## Containment -/

mutual

/-- Whether the second value is contained in the first. A leaf is contained in an equal leaf and in
a branch that has its key; a branch is contained where each of its entries is. -/
def includes : StateValue → StateValue → Bool
  | .leaf a, .leaf b => a == b
  | .branch fields, .leaf b => SortedMap.has b fields
  | .leaf _, .branch others => others.isEmpty
  | .branch fields, .branch others => includesFields fields others

def includesFields (fields : List (String × StateValue)) : List (String × StateValue) → Bool
  | [] => true
  | (key, other) :: rest =>
      (match SortedMap.find? key fields with
        | some value => includes value other
        | none => false) && includesFields fields rest

end

/-! ## Paths -/

/-- The value that nests the given keys, the last of them a leaf. -/
def ofKeys : List String → StateValue
  | [] => .branch []
  | [key] => .leaf key
  | key :: rest => .branch [(key, ofKeys rest)]

/-- Reads a dotted path; empty pieces of it do not count. -/
def ofPath (path : String) : StateValue :=
  ofKeys ((Text.splitDots path).filter (· ≠ ""))

/-- Whether the value contains a dotted path. -/
def matchesPath (value : StateValue) (path : String) : Bool := value.includes (ofPath path)

/-! ## JSON -/

mutual

/-- A leaf is a string and a branch an object. -/
def toJson : StateValue → Json
  | .leaf key => .str key
  | .branch fields => .obj (fieldsToJson fields)

def fieldsToJson : List (String × StateValue) → List (String × Json)
  | [] => []
  | (key, value) :: rest => (key, toJson value) :: fieldsToJson rest

end

mutual

/-- Reads a string or an object of state values. -/
def ofJson? : Json → Option StateValue
  | .str key => some (.leaf key)
  | .obj fields => (ofJsonFields? fields).map ofFields
  | _ => none

def ofJsonFields? : List (String × Json) → Option (List (String × StateValue))
  | [] => some []
  | (key, j) :: rest => do
      let value ← ofJson? j
      let others ← ofJsonFields? rest
      some ((key, value) :: others)

end

end StateValue

end Statechart
