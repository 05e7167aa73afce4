import Statechart.Error

/-!
# Guards

A guard decides whether a transition may be taken: a predicate that the application supplies by
name or in place, an expression, a test whether a state is active, or a combination of guards.
-/

namespace Statechart

/-- What a predicate sees. `params` belong to the reference by name. -/
structure GuardArgs where
  context : Json
  event : Event
  params : Json := .null

/-- A predicate supplied by the application. -/
abbrev Predicate := GuardArgs → Bool

inductive Guard where
  | named (name : String) (params : Json)
  | expr (e : Guard.Expr)
  | predicate (p : Predicate)
  | not (inner : Guard)
  | and (guards : List Guard)
  | or (guards : List Guard)
  /-- True while the state with this id is active. -/
  | stateIn (id : String)

namespace Guard

/-- Everything that a guard can observe. -/
structure View where
  context : Json
  event : Event
  predicates : String → Option Predicate
  isActive : String → Bool

mutual

/-- Whether a guard passes. A name without a predicate is an error; what `and` and `or` do not need
is not evaluated. -/
def eval (view : View) : Guard → Except ActorError Bool
  | .named name params =>
      match view.predicates name with
      | some p => .ok (p { context := view.context, event := view.event, params })
      | none => .error (.missingImplementation "guard" name)
  | .expr e => .ok (e.eval view.context view.event)
  | .predicate p => .ok (p { context := view.context, event := view.event })
  | .not inner =>
      match eval view inner with
      | .ok b => .ok (!b)
      | .error e => .error e
  | .and guards => evalAll view guards
  | .or guards => evalAny view guards
  | .stateIn id => .ok (view.isActive (Text.dropLeading '#' id))

def evalAll (view : View) : List Guard → Except ActorError Bool
  | [] => .ok true
  | g :: rest =>
      match eval view g with
      | .ok true => evalAll view rest
      | .ok false => .ok false
      | .error e => .error e

def evalAny (view : View) : List Guard → Except ActorError Bool
  | [] => .ok false
  | g :: rest =>
      match eval view g with
      | .ok true => .ok true
      | .ok false => evalAny view rest
      | .error e => .error e

end

/-- No guard always passes. -/
def evalOption (view : View) : Option Guard → Except ActorError Bool
  | none => .ok true
  | some g => eval view g

end Guard

end Statechart
