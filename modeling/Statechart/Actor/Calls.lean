import Statechart.Actor.Delivery

/-!
# Calls from outside

What an application does with a system: start, stop and send, follow actors with observers, and let
time pass. Every call returns once all that it leads to has been carried out.
-/

namespace Statechart.System

/-- How many frames a call may lead to before it is given up. -/
def patience : Nat := 100000000

/-- Carries a call out to its end. -/
def carryOut (d : Delivery) : System × Except ActorError Unit := d.run patience

/-- Calls an actor. -/
def perform (sys : System) (s : Session) (c : Call) : System × Except ActorError Unit :=
  carryOut (Delivery.call sys s c)

/-! ## Observers -/

/-- Lets an observer follow an actor, and carries out what it is told at once. -/
def subscribe (sys : System) (s : Session) (o : Observer) : System × Subscription :=
  let (d, subscription) := Delivery.subscribe sys s o
  ((carryOut d).1, subscription)

def unsubscribe (sys : System) (subscription : Subscription) : System :=
  match subscription.target with
  | none => sys
  | some (s, number) =>
      sys.modify s fun a => { a with observers := a.observers.filter fun o => o.1 ≠ number }

/-! ## Time -/

/-- Sends the timers that are due now. -/
def fireDue (sys : System) : System × Except ActorError Unit :=
  carryOut (.doing sys.enter [.fire sys.clock.now false, .leave])

/-- Moves a simulated clock on. Every timer that falls due on the way is sent when the clock shows
its time. Any other clock cannot be moved, so that only timers already due are sent. -/
def advance (sys : System) (ms : Nat) : System × Except ActorError Unit :=
  if sys.clock.simulated then
    let time := sys.clock.now + ms
    carryOut (.doing sys.enter [.fire time true, .arrive time, .leave])
  else (sys.note .advanceWithoutControl).fireDue

/-- Sends the timers that are due now on behalf of nobody, and reports an error that is left. -/
def fireUnattended (sys : System) : System :=
  match sys.fireDue with
  | (sys, .ok ()) => sys
  | (sys, .error e) => sys.note (.unhandledTimerError e.message)

/-- Lets time pass up to `time` while timers are sent as they fall due, for at most `fuel` times at
which some do. -/
def passUntil (time : Nat) : Nat → System → System
  | 0, sys => sys.setNow time
  | fuel + 1, sys =>
      match sys.scheduler.nextDue? with
      | some due =>
          if due ≤ time then
            passUntil time fuel (sys.setNow (max sys.clock.now due)).fireUnattended
          else sys.setNow time
      | none => sys.setNow time

/-- Lets an amount of time pass while timers are sent as they fall due. -/
def pass (sys : System) (ms : Nat) : System :=
  passUntil (sys.clock.now + ms) patience sys

end Statechart.System
