import Statechart.Actor.Mailbox
import Statechart.Actor.Observer
import Statechart.Actor.Scheduler
import Statechart.Notice
import Statechart.RuntimeConfig

/-!
# Actor systems

A system holds the actors of one application with a clock and the delayed events. Actors are found
by session or by system id as long as they are registered and something keeps them: the application,
a call in progress, a timer, or an actor that is kept itself and has them as children.
-/

namespace Statechart

/-! ## Actors -/

structure Actor where
  /-- Unique among the children of its parent. -/
  id : String
  session : Session
  parent : Option Session
  /-- The key of the behaviour that the actor was spawned from. -/
  source : Option String
  systemId : Option String
  logic : Logic
  mailbox : Mailbox
  snapshot : Snapshot
  observers : List (Nat × Observer)
  /-- What the first snapshot asks for, to be carried out on start. -/
  pending : List Effect
deriving Inhabited

namespace Actor

def status (a : Actor) : ActorStatus := a.mailbox.status

/-- The actors that this one keeps alive. -/
def keeps (a : Actor) : List Session :=
  a.snapshot.sessions ++ a.pending.flatMap Effect.keeps

/-- How an actor is referred to in JSON. -/
def reference (a : Actor) : Json :=
  .obj ([("id", .str a.id), ("sessionId", .str a.session.text)] ++
    Json.optionalField "systemId" .str a.systemId)

end Actor

/-! ## Systems -/

structure Clock where
  now : Nat := 0
  /-- Whether the clock only moves when the system is told to advance. -/
  simulated : Bool := true
deriving DecidableEq, Inhabited

structure System where
  config : RuntimeConfig := {}
  clock : Clock := {}
  /-- All actors ever made, by the number of their session. -/
  actors : List (Nat × Actor) := []
  /-- The sessions that can be found. -/
  registered : NodeSet := .empty
  systemIds : List (String × Session) := []
  scheduler : Scheduler := {}
  nextSession : Nat := 0
  nextObserver : Nat := 0
  /-- How many snapshots each observer has seen. -/
  seen : List (Nat × Nat) := []
  /-- How many deliveries are nested at the moment. -/
  depth : Nat := 0
  /-- The errors that nobody has handled in the delivery in progress. -/
  unhandled : List ActorError := []
  /-- The actors that the application keeps without a name. -/
  kept : List Session := []
  /-- The actors that the application holds by name. -/
  held : List (String × Session) := []
  /-- The actors that calls in progress hold. -/
  pins : List Session := []
  /-- What has become visible outside, latest first. -/
  records : List Record := []
deriving Inhabited

namespace System

/-! ## Actors by session -/

def actor? (sys : System) (s : Session) : Option Actor := SortedMap.find? s.number sys.actors

def actor (sys : System) (s : Session) : Actor := (sys.actor? s).getD default

def setActor (sys : System) (a : Actor) : System :=
  { sys with actors := SortedMap.insert a.session.number a sys.actors }

def modify (sys : System) (s : Session) (f : Actor → Actor) : System :=
  match sys.actor? s with
  | some a => sys.setActor (f a)
  | none => sys

def setMailbox (sys : System) (s : Session) (mailbox : Mailbox) : System :=
  sys.modify s fun a => { a with mailbox }

def setSnapshot (sys : System) (s : Session) (snapshot : Snapshot) : System :=
  sys.modify s fun a => { a with snapshot }

/-! ## Records -/

def record (sys : System) (r : Record) : System := { sys with records := r :: sys.records }

def note (sys : System) (n : Notice) : System := sys.record (.notice n)

/-- Reports lines in order. -/
def report (sys : System) (lines : List Json) : System :=
  lines.foldl (fun sys line => sys.record (.line line)) sys

/-! ## What is alive -/

/-- The actors that are held from outside all actors. -/
def roots (sys : System) : List Session :=
  sys.kept ++ sys.held.map Prod.snd ++ sys.pins ++
    sys.scheduler.timers.flatMap fun t => t.2.target.keeps

/-- Adds what the actors to visit keep, for at most `fuel` visits. -/
def reach (sys : System) : Nat → NodeSet → List Session → NodeSet
  | 0, found, _ => found
  | _, found, [] => found
  | fuel + 1, found, s :: rest =>
      -- Nobody is visited twice, so actors that keep each other do no harm.
      if found.contains s.number then reach sys fuel found rest
      else
        let below := match sys.actor? s with
          | some a => a.keeps
          | none => []
        reach sys fuel (found.insert s.number) (below ++ rest)

/-- Every actor is visited once for the roots and once for each actor that keeps it. -/
def reachFuel (sys : System) : Nat :=
  sys.roots.length + sys.actors.foldl (fun n a => n + a.2.keeps.length) 1

/-- The numbers of the sessions that something keeps. -/
def alive (sys : System) : NodeSet := sys.reach sys.reachFuel .empty sys.roots

def isAlive (sys : System) (s : Session) : Bool := sys.alive.contains s.number

/-! ## The registry -/

/-- Finds an actor that is registered and alive. -/
def lookup? (sys : System) (s : Session) : Option Session :=
  if sys.registered.contains s.number && sys.isAlive s then some s else none

/-- Finds an actor by its system id. -/
def find? (sys : System) (systemId : String) : Option Session :=
  (SortedMap.find? systemId sys.systemIds).bind sys.lookup?

/-- How many actors can be found. -/
def actorCount (sys : System) : Nat :=
  let alive := sys.alive
  (sys.registered.toList.filter alive.contains).length

/-- Makes an actor known. A system id goes over to the actor that takes it last. -/
def register (sys : System) (a : Actor) : System :=
  let sys := { sys.setActor a with registered := sys.registered.insert a.session.number }
  match a.systemId with
  | none => sys
  | some systemId =>
      let sys :=
        if SortedMap.has systemId sys.systemIds then sys.note (.systemIdReplaced systemId) else sys
      { sys with systemIds := SortedMap.insert systemId a.session sys.systemIds }

/-- Forgets an actor, and its system id unless another actor has it by now. -/
def unregister (sys : System) (s : Session) (systemId : Option String) : System :=
  let sys := { sys with registered := sys.registered.erase s.number }
  match systemId with
  | none => sys
  | some id =>
      if SortedMap.find? id sys.systemIds = some s then
        { sys with systemIds := SortedMap.erase id sys.systemIds }
      else sys

/-- The session of the next actor. -/
def newSession (sys : System) : System × Session :=
  ({ sys with nextSession := sys.nextSession + 1 }, { number := sys.nextSession })

/-! ## Names -/

/-- The actor that the application holds by a name. -/
def held? (sys : System) (name : String) : Option Session := SortedMap.find? name sys.held

def hold (sys : System) (name : String) (s : Session) : System :=
  { sys with held := SortedMap.insert name s sys.held }

def drop (sys : System) (name : String) : System :=
  { sys with held := SortedMap.erase name sys.held }

/-- The same system while some more actors are held by a call. -/
def pinning (sys : System) (sessions : List Session) : System :=
  { sys with pins := sessions ++ sys.pins }

/-! ## Timers -/

/-- Asks for an event to be sent after a delay. -/
def schedule (sys : System) (owner : Session) (id : Option String) (delay : Nat)
    (target : Destination) (event : Event) : System :=
  { sys with
    scheduler :=
      sys.scheduler.schedule { due := sys.clock.now + delay, owner, id, target, event } }

def cancel (sys : System) (owner : Session) (id : String) : System :=
  { sys with scheduler := (sys.scheduler.cancel owner id).1 }

def cancelOwner (sys : System) (owner : Session) : System :=
  { sys with scheduler := (sys.scheduler.cancelOwner owner).1 }

def setNow (sys : System) (now : Nat) : System := { sys with clock := { sys.clock with now } }

/-! ## Deliveries -/

/-- Keeps an error for the caller of the delivery in progress. -/
def recordUnhandled (sys : System) (e : ActorError) : System :=
  if sys.depth = 0 then sys.note (.unhandledOutside e.message)
  -- The outermost delivery hands it to the caller when it ends.
  else { sys with unhandled := sys.unhandled ++ [e] }

/-- A delivery begins. -/
def enter (sys : System) : System := { sys with depth := sys.depth + 1 }

/-- A delivery ends. The outermost one gives the first error that was kept. -/
def leave (sys : System) : System × Except ActorError Unit :=
  let depth := sys.depth - 1
  if depth = 0 then
    ({ sys with depth, unhandled := [] },
      match sys.unhandled with
      | [] => .ok ()
      | e :: _ => .error e)
  else ({ sys with depth }, .ok ())

end System

end Statechart
