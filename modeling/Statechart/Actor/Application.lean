import Statechart.Actor.Calls
import Statechart.Inspect.System

/-!
# Applications

An application makes systems one after the other, each with a root actor, and holds actors of any of
them by name. Supplied functions run in one system and may call every actor that is held; one of
another system that has stopped is stood in for by a copy, as a call changes nothing about it.
-/

namespace Statechart

structure Application where
  systems : List System
  /-- The number of the system in use. -/
  current : Nat := 0
  root : Session
  /-- The actors held by name, with the numbers of their systems. -/
  names : List (String × Nat × Session) := []
  /-- The observers by name, with the numbers of the systems in which they follow an actor. -/
  subscriptions : List (String × Nat × Subscription) := []

namespace Application

/-- An application with one system. -/
def single (sys : System) (root : Session) : Application :=
  { systems := [{ sys with kept := [root] }], root }

def systemAt (app : Application) (i : Nat) : System := app.systems[i]?.getD default

def system (app : Application) : System := app.systemAt app.current

def setSystem (app : Application) (i : Nat) (sys : System) : Application :=
  { app with systems := app.systems.set i sys }

/-! ## Names -/

/-- The session that stands for an actor of another system. No system has as many actors of its
own. -/
def foreignSession (i : Nat) (s : Session) : Session := { number := (i + 1) * 100000 + s.number }

/-- Holds an actor of system `i` in another system, if it has stopped. -/
def holdForeign (sys : System) (name : String) (i : Nat) (a : Actor) : System :=
  if a.status = .stopped then
    let session := foreignSession i a.session
    (sys.setActor
      { a with session, snapshot := .value default, observers := [], pending := [] }).hold
        name session
  else sys

/-- Makes the names known in all systems. -/
def shareNames (app : Application) : Application :=
  { app with
    systems := app.systems.mapIdx fun k sys =>
      app.names.foldl
        (fun sys (name, i, s) =>
          if i = k then sys.hold name s
          else holdForeign sys name i ((app.systemAt i).actor s))
        { sys with held := [] } }

def hold (app : Application) (name : String) (i : Nat) (s : Session) : Application :=
  shareNames { app with names := (name, i, s) :: app.names.filter fun e => e.1 ≠ name }

def drop (app : Application) (name : String) : Application :=
  shareNames { app with names := app.names.filter fun e => e.1 ≠ name }

/-- Uses a new system; the root before is no longer kept. -/
def switch (app : Application) (sys : System) (root : Session) : Application :=
  let old := app.setSystem app.current { app.system with kept := [] }
  shareNames { old with
    systems := old.systems ++ [{ sys with kept := [root] }]
    current := old.systems.length
    root }

/-- The actor at the end of a path: `root` or a name, and ids of children between slashes. -/
def find? (app : Application) (path : String) : Option (Nat × Session) :=
  match (Text.splitAt '/' path.toList).map String.ofList with
  | [] => none
  | name :: rest => do
      let (i, s) ← if name = "root" then some (app.current, app.root) else app.names.lookup name
      let child ← (app.systemAt i).descendant? s rest
      some (i, child)

/-! ## Observers -/

/-- Lets an observer follow an actor. If it has stopped already, the observer hears of that in the
system in use. -/
def subscribe (app : Application) (name : String) (i : Nat) (s : Session) (o : Observer) :
    Application :=
  let sys := app.systemAt i
  let app' := if (sys.actor s).status = .stopped then
      (app.setSystem app.current (System.carryOut (.tellEnd app.system o)).1, { target := none })
    else
      let (sys, subscription) := sys.subscribe s o
      (app.setSystem i sys, subscription)
  { app'.1 with
    subscriptions := (name, i, app'.2) :: app.subscriptions.filter fun e => e.1 ≠ name }

/-- Ends the subscription of a name, if there is one. -/
def unsubscribe? (app : Application) (name : String) : Option Application := do
  let (i, subscription) ← app.subscriptions.lookup name
  some { app.setSystem i ((app.systemAt i).unsubscribe subscription) with
    subscriptions := app.subscriptions.filter fun e => e.1 ≠ name }

/-- Takes what has become visible since the last time. -/
def takeRecords (app : Application) (levels : List String) : Application × List Json :=
  let taken := app.systems.map fun sys => sys.takeRecords levels
  ({ app with systems := taken.map Prod.fst }, taken.flatMap Prod.snd)

end Application

end Statechart
