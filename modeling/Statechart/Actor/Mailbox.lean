import Statechart.Actor.Script

/-!
# Mailboxes

The queue of one actor, in the order of arrival, with the actor's status. `flushing` is set while
the queue is being worked off, so that only one call at a time does so. A journal keeps account of
what happened to the queue.
-/

namespace Statechart

/-- One thing that happened to the queue of a mailbox. -/
inductive Posting where
  /-- An event was queued. -/
  | accepted (event : Event)
  /-- The init signal was put before all else. -/
  | started
  /-- An event was taken, to be processed. -/
  | taken (event : Event)
  /-- The stop signal took the place of all that was queued. -/
  | stopAsked
  /-- What was queued was dropped for good. -/
  | closed
deriving DecidableEq

structure Mailbox where
  queue : List Event := []
  status : ActorStatus := .notStarted
  flushing : Bool := false
  /-- What happened to the queue, latest first. -/
  journal : List Posting := []
deriving DecidableEq, Inhabited

/-- What became of an event that was offered to a mailbox. -/
inductive Offer where
  /-- Queued for a running actor. -/
  | ready
  /-- Kept until the actor starts. -/
  | buffered
  /-- The actor has stopped. -/
  | dropped
  /-- The actor has not started, and events do not wait. -/
  | rejected
deriving DecidableEq

namespace Mailbox

/-- Puts an event at the end of the queue. -/
def push (m : Mailbox) (event : Event) : Mailbox :=
  { m with queue := m.queue ++ [event], journal := .accepted event :: m.journal }

/-- Offers an event. With `defer` an actor that has not started keeps it. -/
def enqueue (m : Mailbox) (event : Event) (defer : Bool) : Mailbox × Offer :=
  match m.status with
  | .stopped => (m, .dropped)
  | .notStarted => if defer then (m.push event, .buffered) else (m, .rejected)
  | .running => (m.push event, .ready)

def initSignal : Event := .platform Event.initName .null

def stopSignal : Event := .platform Event.stopName .null

/-- The start of a mailbox that has not been started: the init signal goes before all else. -/
def start? (m : Mailbox) : Option Mailbox :=
  if m.status = .notStarted then
    some { m with
      status := .running, queue := initSignal :: m.queue, journal := .started :: m.journal }
  else none

/-- Puts the stop signal in place of all that is queued. -/
def requestStop (m : Mailbox) : Mailbox :=
  { m with queue := [stopSignal], journal := .stopAsked :: m.journal }

/-- Claims the right to work off the queue of a running actor. -/
def beginFlush? (m : Mailbox) : Option Mailbox :=
  -- A queue that is being worked off is left to whoever is doing so.
  if m.flushing || m.status != .running then none else some { m with flushing := true }

/-- Takes the next event; without one the flush is over. -/
def next (m : Mailbox) : Mailbox × Option Event :=
  match m.queue with
  | [] => ({ m with flushing := false }, none)
  | event :: rest => ({ m with queue := rest, journal := .taken event :: m.journal }, some event)

/-- Marks the actor as stopped and drops what is queued. -/
def close (m : Mailbox) : Mailbox :=
  { m with status := .stopped, queue := [], journal := .closed :: m.journal }

end Mailbox

end Statechart
