import Statechart.Event

/-!
# Guard expressions

Conditions over the fields of the context and of the event: a bare field is a test of truth, a field
is compared with a literal or ordered against a number, and conditions are joined by and, or and
not. `Expr.eval` says when an expression holds.
-/

namespace Statechart.Guard

/-- Where a field is read. -/
inductive Scope where
  | context
  | event
deriving DecidableEq

/-- A field, by the keys that lead to it. -/
structure Field where
  scope : Scope
  path : List String
deriving DecidableEq

/-- A constant that a field is compared with. -/
inductive Literal where
  | null
  | bool (value : Bool)
  | str (value : String)
  | num (value : Float)
deriving DecidableEq

inductive Order where
  | lt
  | le
  | gt
  | ge
deriving DecidableEq

inductive Expr where
  | truthy (field : Field)
  | eq (field : Field) (literal : Literal)
  | ne (field : Field) (literal : Literal)
  | compare (field : Field) (order : Order) (bound : Float)
  | and (left right : Expr)
  | or (left right : Expr)
  | not (inner : Expr)
deriving DecidableEq

/-! ## Fields -/

/-- The value of a field. `event.type` is the name of the event, every other field of the event is
looked up in its data; what is missing reads as `null`. -/
def Field.read (f : Field) (context : Json) (event : Event) : Json :=
  match f.scope with
  | .context => (context.at? f.path).getD .null
  | .event =>
      if f.path = ["type"] then .str event.name
      else (event.data.at? f.path).getD .null

/-! ## Comparisons -/

/-- Zero, the empty string, and empty arrays and objects are false; so are `false` and `null`. -/
def isTruthy : Json → Bool
  | .null => false
  | .bool b => b
  | .num n => n.toFloat != 0.0
  | .str s => s != ""
  | .arr items => !items.isEmpty
  | .obj fields => !fields.isEmpty

/-- The distance below which two numbers count as equal: the gap between 1 and the next double. -/
def tolerance : Float := Float.ofBits 0x3CB0000000000000

/-- Numbers are equal if they are closer than the tolerance; no array or object equals a literal. -/
def Literal.equals (literal : Literal) (value : Json) : Bool :=
  match value, literal with
  | .num a, .num b => (a.toFloat - b).abs < tolerance
  | .null, .null => true
  | .bool a, .bool b => a == b
  | .str a, .str b => a == b
  | _, _ => false

def Order.holds (order : Order) (a b : Float) : Bool :=
  match order with
  | .lt => a < b
  | .le => a ≤ b
  | .gt => a > b
  | .ge => a ≥ b

/-! ## Evaluation -/

/-- Whether an expression holds. An ordering never holds for a field that is no number. -/
def Expr.eval (context : Json) (event : Event) : Expr → Bool
  | .truthy f => isTruthy (f.read context event)
  | .eq f literal => literal.equals (f.read context event)
  | .ne f literal => !literal.equals (f.read context event)
  | .compare f order bound =>
      match (f.read context event).asFloat? with
      | some n => order.holds n bound
      | none => false
  | .and a b => a.eval context event && b.eval context event
  | .or a b => a.eval context event || b.eval context event
  | .not e => !e.eval context event

end Statechart.Guard
