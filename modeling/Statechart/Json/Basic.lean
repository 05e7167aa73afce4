/-!
# JSON values

Numbers keep the form they were written in: an integer between -2^63 and 2^64 - 1 stays an integer
and every other number is a double, so `1` and `1.0` are different values. Objects keep the order
in which their fields were inserted. `Json.same` is equality up to that order; `Json.dedup` gives a
field that was written twice its last value at its first place.
-/

namespace Statechart

/-- A JSON number. -/
inductive Number where
  | int (value : Int)
  | float (value : Float)
deriving DecidableEq

namespace Number

/-- The double nearest to the number. -/
def toFloat : Number → Float
  | .int n => Float.ofInt n
  | .float x => x

/-- Integers and doubles are never the same number; doubles compare as IEEE values. -/
def same : Number → Number → Bool
  | .int a, .int b => a == b
  | .float a, .float b => a == b
  | _, _ => false

/-- The number as a 64-bit signed integer, if it is written as one. -/
def asInt64? : Number → Option Int
  | .int n => if -9223372036854775808 ≤ n ∧ n < 9223372036854775808 then some n else none
  | .float _ => none

/-- The number as a 64-bit unsigned integer, if it is written as one. -/
def asUInt64? : Number → Option Nat
  | .int n => if 0 ≤ n ∧ n < UInt64.size then some n.toNat else none
  | .float _ => none

end Number

/-- A JSON value. -/
inductive Json where
  | null
  | bool (value : Bool)
  | num (value : Number)
  | str (value : String)
  | arr (items : List Json)
  | obj (fields : List (String × Json))
deriving Inhabited

namespace Json

/-! ## Building and taking apart -/

/-- An integer value. -/
def int (n : Int) : Json := .num (.int n)

/-- A natural number as an integer value. -/
def nat (n : Nat) : Json := .num (.int n)

/-- `null` for nothing. -/
def ofOption {α : Type} (encode : α → Json) : Option α → Json
  | none => .null
  | some a => encode a

def isNull : Json → Bool
  | .null => true
  | _ => false

def asInt64? : Json → Option Int
  | .num n => n.asInt64?
  | _ => none

def asUInt64? : Json → Option Nat
  | .num n => n.asUInt64?
  | _ => none

def asFloat? : Json → Option Float
  | .num n => some n.toFloat
  | _ => none

def asStr? : Json → Option String
  | .str s => some s
  | _ => none

def asBool? : Json → Option Bool
  | .bool b => some b
  | _ => none

/-! ## Fields -/

/-- The value of the first field called `key`. -/
def field? (key : String) : List (String × Json) → Option Json
  | [] => none
  | (k, v) :: rest => if k = key then some v else field? key rest

/-- A field that exists keeps its place; a new one goes to the end. -/
def setField (key : String) (value : Json) : List (String × Json) → List (String × Json)
  | [] => [(key, value)]
  | (k, v) :: rest =>
      if k = key then (k, value) :: rest else (k, v) :: setField key value rest

/-- The field of an object; nothing for any other value. -/
def get? (key : String) : Json → Option Json
  | .obj fields => field? key fields
  | _ => none

/-- Follows keys through nested objects only. -/
def at? : List String → Json → Option Json
  | [], j => some j
  | key :: rest, j => (j.get? key).bind (at? rest)

@[simp] theorem field?_setField_self (key : String) (value : Json)
    (fields : List (String × Json)) :
    field? key (setField key value fields) = some value := by
  induction fields with
  | nil => simp [setField, field?]
  | cons head rest ih =>
      obtain ⟨k, v⟩ := head
      by_cases h : k = key <;> simp [setField, field?, h, ih]

theorem field?_setField_of_ne {key other : String} (h : other ≠ key) (value : Json)
    (fields : List (String × Json)) :
    field? other (setField key value fields) = field? other fields := by
  induction fields with
  | nil => simp [setField, field?, Ne.symm h]
  | cons head rest ih =>
      obtain ⟨k, v⟩ := head
      by_cases hk : k = key
      · subst hk
        simp [setField, field?, Ne.symm h]
      · by_cases ho : k = other
        · subst ho
          simp [setField, field?, hk]
        · simp [setField, field?, hk, ho, ih]

/-! ## Structural equality -/

mutual

/-- Equality of the written values, field order included. -/
def beq : Json → Json → Bool
  | .null, .null => true
  | .bool a, .bool b => a == b
  | .num a, .num b => decide (a = b)
  | .str a, .str b => a == b
  | .arr a, .arr b => beqItems a b
  | .obj a, .obj b => beqFields a b
  | _, _ => false

def beqItems : List Json → List Json → Bool
  | [], [] => true
  | a :: as, b :: bs => beq a b && beqItems as bs
  | _, _ => false

def beqFields : List (String × Json) → List (String × Json) → Bool
  | [], [] => true
  | (k, a) :: as, (l, b) :: bs => k == l && beq a b && beqFields as bs
  | _, _ => false

end

mutual

theorem beq_iff : ∀ a b : Json, beq a b = true ↔ a = b
  | .arr a, b => by cases b <;> simp [beq, beqItems_iff a]
  | .obj a, b => by cases b <;> simp [beq, beqFields_iff a]
  | .null, b => by cases b <;> simp [beq]
  | .bool _, b => by cases b <;> simp [beq]
  | .num _, b => by cases b <;> simp [beq]
  | .str _, b => by cases b <;> simp [beq]

theorem beqItems_iff : ∀ as bs : List Json, beqItems as bs = true ↔ as = bs
  | [], bs => by cases bs <;> simp [beqItems]
  | a :: as, bs => by cases bs <;> simp [beqItems, beq_iff a, beqItems_iff as]

theorem beqFields_iff : ∀ as bs : List (String × Json), beqFields as bs = true ↔ as = bs
  | [], bs => by cases bs <;> simp [beqFields]
  | (k, a) :: as, bs => by
      cases bs <;> simp [beqFields, beq_iff a, beqFields_iff as, Prod.ext_iff]

end

instance : DecidableEq Json := fun a b => decidable_of_iff _ (beq_iff a b)

/-! ## Equality up to field order -/

mutual

/-- Whether two values are equal when the order of fields is left out. Objects are compared by
size and by looking every field of the first up in the second, so no key may occur twice. -/
def same : Json → Json → Bool
  | .null, .null => true
  | .bool a, .bool b => a == b
  | .num a, .num b => a.same b
  | .str a, .str b => a == b
  | .arr a, .arr b => sameItems a b
  | .obj a, .obj b => a.length == b.length && sameFields a b
  | _, _ => false

def sameItems : List Json → List Json → Bool
  | [], [] => true
  | a :: as, b :: bs => same a b && sameItems as bs
  | _, _ => false

def sameFields : List (String × Json) → List (String × Json) → Bool
  | [], _ => true
  | (k, a) :: as, bs =>
      (match field? k bs with
        | some b => same a b
        | none => false) && sameFields as bs

end

/-! ## Repeated fields -/

mutual

/-- Every field once: at the place of its first writing, with its last value. -/
def dedup : Json → Json
  | .arr items => .arr (dedupItems items)
  | .obj fields => .obj (dedupFields [] fields)
  | j => j

def dedupItems : List Json → List Json
  | [] => []
  | j :: js => dedup j :: dedupItems js

def dedupFields (done : List (String × Json)) : List (String × Json) → List (String × Json)
  | [] => done
  | (k, j) :: rest => dedupFields (setField k (dedup j) done) rest

end

/-! ## Size -/

mutual

/-- How deeply arrays and objects are nested. -/
def depth : Json → Nat
  | .arr items => depthItems items + 1
  | .obj fields => depthFields fields + 1
  | _ => 0

def depthItems : List Json → Nat
  | [] => 0
  | j :: js => max (depth j) (depthItems js)

def depthFields : List (String × Json) → Nat
  | [] => 0
  | (_, j) :: js => max (depth j) (depthFields js)

end

end Json

end Statechart
