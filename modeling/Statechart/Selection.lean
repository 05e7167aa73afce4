import Statechart.Domain
import Statechart.Guard

/-!
# Selection

Which transitions an event enables. Every active leaf picks the first transition whose guard
passes, going from the leaf to the root. Of picks whose exit sets overlap, one whose source lies
below the other's is kept, and otherwise the one that was picked first.
-/

namespace Statechart

/-- What decides whether a transition is enabled. -/
structure Situation where
  config : Configuration
  history : HistoryValue
  context : Json
  predicates : String → Option Predicate

namespace Definition

variable {L : Type} (d : Definition L)

/-- Whether a guard passes in a situation. -/
def passes (s : Situation) (event : Event) (guard : Option Guard) : Except ActorError Bool :=
  Guard.evalOption
    { context := s.context, event, predicates := s.predicates, isActive := d.isActive s.config }
    guard

/-! ## Picks -/

/-- The first of some transitions whose guard passes. -/
def firstEnabled (s : Situation) (event : Event) : List Nat → Except ActorError (Option Nat)
  | [] => .ok none
  | t :: rest =>
      match d.passes s event (d.transition t).guard with
      | .ok true => .ok (some t)
      | .ok false => firstEnabled s event rest
      | .error e => .error e

/-- The first enabled transition of a path of states. -/
def pickAlong (s : Situation) (event : Event) (candidates : Nat → List Nat) :
    List Nat → Except ActorError (Option Nat)
  | [] => .ok none
  | node :: rest =>
      match d.firstEnabled s event (candidates node) with
      | .ok (some t) => .ok (some t)
      | .ok none => pickAlong s event candidates rest
      | .error e => .error e

/-- What a leaf picks. -/
def pick (s : Situation) (event : Event) (candidates : Nat → List Nat) (leaf : Nat) :
    Except ActorError (Option Nat) :=
  d.pickAlong s event candidates (leaf :: d.properAncestors leaf none)

/-- What some leaves pick, each transition once. -/
def picks (s : Situation) (event : Event) (candidates : Nat → List Nat) :
    List Nat → List Nat → Except ActorError (List Nat)
  | picked, [] => .ok picked
  | picked, leaf :: rest =>
      match d.pick s event candidates leaf with
      | .ok (some t) => picks s event candidates (addNew picked t) rest
      | .ok none => picks s event candidates picked rest
      | .error e => .error e

/-! ## Conflicts -/

/-- Takes a transition into a list without conflicts. It displaces what it overlaps with if its
source lies below all of the others' sources, and otherwise it is left out. -/
def joinPicks (s : Situation) (kept : List (Nat × Configuration)) (t : Nat) :
    List (Nat × Configuration) :=
  let exit := d.exitSet s.config s.history (d.transition t)
  let overlaps (k : Nat × Configuration) : Bool := !exit.disjoint k.2
  let displaces (k : Nat × Configuration) : Bool :=
    d.isDescendant (d.transition t).source (d.transition k.1).source
  -- Without an overlap there is nothing to displace, and the transition joins at the end.
  if (kept.filter overlaps).all displaces then
    kept.filter (fun k => !overlaps k) ++ [(t, exit)]
  else kept

def removeConflicts (s : Situation) (picked : List Nat) : List Nat :=
  (picked.foldl (d.joinPicks s) []).map Prod.fst

/-! ## Selection -/

def selectFrom (s : Situation) (event : Event) (candidates : Nat → List Nat) :
    Except ActorError (List Nat) :=
  match d.picks s event candidates [] (d.leaves s.config) with
  | .ok picked => .ok (d.removeConflicts s picked)
  | .error e => .error e

/-- The transitions that an event enables. -/
def select (s : Situation) (event : Event) : Except ActorError (List Nat) :=
  d.selectFrom s event fun node => d.candidates node event.name

/-- The enabled transitions that need no event. Their guards see the event that led here. -/
def selectEventless (s : Situation) (event : Event) : Except ActorError (List Nat) :=
  d.selectFrom s event d.eventless

end Definition

end Statechart
