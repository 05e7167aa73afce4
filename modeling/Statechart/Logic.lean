import Statechart.Definition.Basic
import Statechart.Effect

/-!
# Behaviours

An actor behaves as a state machine, as a reducer over a JSON state, or as a task that runs once.
A machine comes with implementations: the actions, guards, delays and behaviours that its definition
refers to by name.
-/

namespace Statechart

/-! ## Implementations -/

/-- What an application supplies by name. -/
structure Implementations (L : Type) where
  actions : String → Option (Action L)
  guards : String → Option Predicate
  delays : String → Option (ActionArgs → Nat)
  actors : String → Option L
  /-- Makes the initial context from the actor's input. -/
  context : Option (Json → Json)

namespace Implementations

variable {L : Type}

def empty : Implementations L where
  actions _ := none
  guards _ := none
  delays _ := none
  actors _ := none
  context := none

instance : Inhabited (Implementations L) := ⟨empty⟩

/-- Adds implementations; those of `other` replace earlier ones of the same name. -/
def merged (base other : Implementations L) : Implementations L where
  actions name := other.actions name <|> base.actions name
  guards name := other.guards name <|> base.guards name
  delays name := other.delays name <|> base.delays name
  actors name := other.actors name <|> base.actors name
  context := other.context <|> base.context

end Implementations

/-! ## Behaviours -/

/-- What a reducer or a task knows of the actor that it runs for. -/
structure Surroundings where
  id : String
  session : Session
  parent : Option Session
  /-- Finds an actor by its system id. -/
  find : String → Option Session
  /-- How many effects the step has asked for so far. -/
  pending : Nat

/-- What a reducer or a task gives back: its result, the events to send afterwards, and lines for
the outside. -/
structure Outcome (α : Type) where
  result : α
  sends : List (Destination × Event) := []
  reports : List Json := []

inductive Logic where
  | machine (definition : Definition Logic) (implementations : Implementations Logic)
  /-- A reducer makes its state from the input, and the next state from the state and an event. -/
  | reducer (initial : Json → Json) (next : Surroundings → Json → Event → Outcome Json)
  /-- A task turns the input into an output when the actor starts, or fails. -/
  | task (run : Surroundings → Json → Outcome (Except ActionError Json))

instance : Inhabited Logic := ⟨.reducer id fun _ state _ => { result := state }⟩

def Logic.kind : Logic → LogicKind
  | .machine _ _ => .machine
  | .reducer _ _ => .transition
  | .task _ => .task

end Statechart
