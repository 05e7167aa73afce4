import Statechart.Effect
import Statechart.SortedMap

/-!
# Scheduler

The delayed events of a system, in the order in which they fall due; events due at the same time
keep the order in which they were scheduled. An index finds a timer by its owner and id.
-/

namespace Statechart

/-- An event to be sent later. -/
structure Timer where
  due : Nat
  /-- The actor that asked for it. -/
  owner : Session
  id : Option String
  target : Destination
  event : Event
deriving DecidableEq

/-- The place of a timer: when it is due, and its number in the order of scheduling. -/
structure Scheduler.Key where
  due : Nat
  number : Nat
deriving DecidableEq

namespace Scheduler.Key

/-- The order in which timers fire. -/
def before (a b : Key) : Bool :=
  decide (a.due < b.due) || (a.due == b.due && decide (a.number < b.number))

end Scheduler.Key

structure Scheduler where
  /-- The pending timers in the order of their keys. -/
  timers : List (Scheduler.Key × Timer) := []
  /-- The key of every pending timer that has an id. -/
  ids : List ((Session × String) × Scheduler.Key) := []
  nextNumber : Nat := 0
deriving Inhabited

namespace Scheduler

/-- Inserts a timer at its place. -/
def place (key : Key) (timer : Timer) : List (Key × Timer) → List (Key × Timer)
  | [] => [(key, timer)]
  | entry :: rest =>
      if key.before entry.1 then (key, timer) :: entry :: rest
      else entry :: place key timer rest

/-- The key of the timer with an owner and an id. -/
def key? (s : Scheduler) (owner : Session) (id : String) : Option Key :=
  SortedMap.find? (owner, id) s.ids

def size (s : Scheduler) : Nat := s.timers.length

/-- Drops the timer with an owner and an id, and tells whether there was one. -/
def cancel (s : Scheduler) (owner : Session) (id : String) : Scheduler × Bool :=
  match s.key? owner id with
  | none => (s, false)
  | some key =>
      ({ s with
          timers := s.timers.filter fun entry => entry.1 ≠ key
          ids := s.ids.filter fun entry => entry.1 ≠ (owner, id) },
        s.timers.any fun entry => entry.1 = key)

/-- Adds a timer in place of the one with the same owner and id. -/
def schedule (s : Scheduler) (timer : Timer) : Scheduler :=
  let s := match timer.id with
    | some id => (s.cancel timer.owner id).1
    | none => s
  let key : Key := { due := timer.due, number := s.nextNumber }
  { timers := place key timer s.timers
    ids := match timer.id with
      | some id => ((timer.owner, id), key) :: s.ids
      | none => s.ids
    nextNumber := s.nextNumber + 1 }

/-- Drops all timers of an owner, and tells how many there were. -/
def cancelOwner (s : Scheduler) (owner : Session) : Scheduler × Nat :=
  ({ s with
      timers := s.timers.filter fun entry => entry.2.owner ≠ owner
      ids := s.ids.filter fun entry => entry.1.1 ≠ owner },
    (s.timers.filter fun entry => entry.2.owner = owner).length)

/-- Takes the first timer if it is due at `now`. -/
def popDue? (s : Scheduler) (now : Nat) : Option (Timer × Scheduler) :=
  match s.timers with
  | [] => none
  | (key, timer) :: rest =>
      if now < key.due then none
      else some (timer,
        { s with
          timers := rest
          ids := match timer.id with
            | some id => s.ids.filter fun entry => entry.1 ≠ (timer.owner, id)
            | none => s.ids })

/-- When the next timer is due. -/
def nextDue? (s : Scheduler) : Option Nat := s.timers.head?.map fun entry => entry.1.due

end Scheduler

end Statechart
