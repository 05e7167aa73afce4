import Statechart.Entry
import Statechart.Selection
import Statechart.Snapshot.Persisted
import Statechart.System

/-!
# Steps

The state of a machine while a step is computed, and how single actions change it. Actions are
carried out strictly in order, and each sees the context that the ones before it have left. New
contexts and raised events count at once; whatever concerns other actors becomes an effect.

A journal keeps account of what happened in which order.
-/

namespace Statechart

/-! ## Machines -/

/-- An actor to be made. Without an id it is called by its session. -/
structure ActorSpec where
  id : Option String := none
  parent : Option Session := none
  source : Option String := none
  systemId : Option String := none
  input : Json := .null
  /-- The stored snapshot to go on from. -/
  snapshot : Option PersistedSnapshot := none
deriving Inhabited

/-- How a system makes an actor. -/
abbrev Spawner := System → Logic → ActorSpec → System × Except ActorError Session

/-- A definition with what its names stand for, and with the way to make its children. -/
structure Machine where
  definition : Definition Logic
  implementations : Implementations Logic
  spawn : Spawner

/-! ## The state of a step -/

/-- Where a behaviour runs: the actor, its system, and the effects asked for so far. -/
structure Scope where
  system : System
  session : Session
  id : String
  parent : Option Session
  effects : List Effect := []
deriving Inhabited

/-- One thing that happened in a step. -/
inductive Mark where
  /-- An event was taken, and these transitions were selected for it. -/
  | handled (event : Event) (selected : List Nat)
  /-- These transitions were selected without an event, after `last`. -/
  | eventless (last : Event) (selected : List Nat)
  /-- A microstep with these transitions began. -/
  | microstep (transitions : List Nat)
  /-- The exit actions of a state have been carried out. -/
  | exited (state : Nat)
  /-- The actions of a transition have been carried out. -/
  | taken (transition : Nat)
  /-- The entry actions of a state have been carried out. -/
  | entered (state : Nat)
  /-- A state was found complete. -/
  | completed (state : Nat)
  /-- An event was put on the internal queue. -/
  | raised (event : Event)
  /-- An assignment failed. -/
  | failed (error : ActionError)

structure Work where
  snapshot : MachineSnapshot
  /-- The internal events that wait. -/
  internal : List Event := []
  scope : Scope
  /-- What happened, latest first. -/
  journal : List Mark := []
deriving Inhabited

/-- A part of a step. What an abandoned step has done to the scope stays. -/
abbrev StepM := EStateM ActorError Work

/-- The actors that a step in progress keeps alive. -/
def Work.keeps (w : Work) : List Session :=
  w.snapshot.children.map Prod.snd ++ w.scope.effects.flatMap Effect.keeps

/-- The system as a step in progress sees it. -/
def Work.system (w : Work) : System := w.scope.system.pinning w.keeps

namespace StepM

def modifySnapshot (f : MachineSnapshot → MachineSnapshot) : StepM Unit :=
  modify fun w => { w with snapshot := f w.snapshot }

def mark (m : Mark) : StepM Unit := modify fun w => { w with journal := m :: w.journal }

/-- Records an action that has been carried out. -/
def recordAction (kind : String) (params : Json) : StepM Unit :=
  modifySnapshot fun s => { s with actions := s.actions ++ [{ kind, params }] }

def pushEffect (effect : Effect) : StepM Unit :=
  modify fun w => { w with scope := { w.scope with effects := w.scope.effects ++ [effect] } }

/-- Puts an event on the internal queue. -/
def raise (event : Event) : StepM Unit :=
  modify fun w =>
    { w with internal := w.internal ++ [event], journal := .raised event :: w.journal }

/-- Reports a name that nothing was supplied for, if the system is set up to. -/
def missing (kind name : String) : StepM Unit :=
  modify fun w =>
    if w.scope.system.config.devMode then
      { w with
        scope := { w.scope with
          system := w.scope.system.note (.missingImplementation w.scope.id kind name) } }
    else w

/-- What a supplied function sees at this point. -/
def args (event : Event) (params : Json) : StepM ActionArgs := do
  let w ← get
  return { context := w.snapshot.context, event, params, held := w.scope.system.held? }

end StepM

namespace Machine

open StepM

variable (m : Machine)

/-- What decides about transitions in a snapshot. -/
def situation (s : MachineSnapshot) : Situation where
  config := s.config
  history := s.history
  context := s.context
  predicates := m.implementations.guards

/-! ## Parts of actions -/

/-- An action with the parameters of the reference that led to it. -/
structure Task where
  action : Action Logic
  params : Json

/-- The delay in milliseconds, if it is known. -/
def delayMs? (event : Event) (params : Json) : Delay → StepM (Option Nat)
  | .ms n => return some n
  | .named name =>
      match m.implementations.delays name with
      | some f => return some (f (← args event params))
      | none => do
          missing "delay" name
          return none

/-- The recipient that a target stands for. -/
def destination (w : Work) (target : SendTarget) : Except ActorError Destination :=
  match target with
  | .parent =>
      match w.scope.parent with
      | some p => .ok (.session p)
      | none => .error (.communication w.scope.id "#_parent")
  | .self => .ok (.session w.scope.session)
  | .child id =>
      match SortedMap.find? id w.snapshot.children with
      | some c => .ok (.actor c)
      | none => .error (.communication w.scope.id id)
  | .system id =>
      match w.system.find? id with
      | some s => .ok (.actor s)
      | none => .error (.communication w.scope.id ("system:" ++ id))
  | .actor s => .ok (.actor s)

/-- A send that reaches nobody abandons the step of a root actor; any other one goes on with an
error event. -/
def unreachable (e : ActorError) : StepM Unit := do
  let w ← get
  if w.scope.parent.isNone then throw e
  raise (.errorExecution e.toJson)

def assign (assignment : Assignment) (event : Event) (params : Json) : StepM Unit := do
  match assignment.apply (← args event params) with
  | .ok context => modifySnapshot fun s => { s with context }
  | .error e =>
      mark (.failed e)
      raise (.errorExecution e.toJson)

/-- Raises an event for the machine itself. -/
def raiseSelf (expr : EventExpr) (delay : Option Delay) (id : Option String) (event : Event)
    (params : Json) : StepM Unit := do
  let raised := { expr.eval (← args event params) with kind := .internal }
  match delay with
  | none =>
      raise raised
      recordAction "raise" (.obj [("event", .str raised.name)])
  | some delay =>
      match ← m.delayMs? event params delay with
      | none => return
      -- With a delay the event takes the way of one from outside, through scheduler and mailbox.
      | some ms =>
          let w ← get
          pushEffect (.send (.session w.scope.session) raised (some ms) id)
          recordAction "raise" (.obj [("event", .str raised.name)])

/-- Sends an event to another actor. The recipient is settled before the delay. -/
def sendTo (target : SendTarget) (expr : EventExpr) (delay : Option Delay) (id : Option String)
    (event : Event) (params : Json) : StepM Unit := do
  let w ← get
  let sent := { expr.eval (← args event params) with origin := some w.scope.session.text }
  match destination w target with
  | .error e => unreachable e
  | .ok recipient =>
      let send (ms : Option Nat) : StepM Unit := do
        recordAction "sendTo" (.obj [("to", .str target.text), ("event", .str sent.name)])
        pushEffect (.send recipient sent ms id)
      match delay with
      | none => send none
      | some delay =>
          match ← m.delayMs? event params delay with
          | none => return
          | some ms => send (some ms)

def log (label : Option String) (value : Option ValueExpr) (event : Event) (params : Json) :
    StepM Unit := do
  let a ← args event params
  pushEffect (.log label (match value with
    | some expr => expr.eval a
    | none => a.context))
  recordAction "log" (.obj [("label", .ofOption .str label)])

/-- Makes a child and asks for its start. A child that cannot be made is reported by an event. -/
def spawnChild (logic : Logic) (key id systemId : Option String) (input : ValueExpr)
    (event : Event) (params : Json) : StepM Unit := do
  let input := input.eval (← args event params)
  let w ← get
  -- What the step refers to stays alive while the child is made, and no longer.
  let pins := w.scope.system.pins
  let (system, made) := m.spawn w.system logic
    { id, parent := some w.scope.session, source := key, systemId, input }
  set { w with scope := { w.scope with system := { system with pins } } }
  match made with
  | .ok child =>
      let name := (system.actor child).id
      recordAction "spawnChild" (.obj [("id", .str name), ("src", .ofOption .str key)])
      modifySnapshot fun s => { s with children := SortedMap.insert name child s.children }
      pushEffect (.start child)
  | .error e => raise (.errorPlatform ((id <|> key).getD "inline") e.toJson)

def spawn? (source : LogicSource Logic) (id systemId : Option String) (input : ValueExpr)
    (event : Event) (params : Json) : StepM Unit :=
  match source with
  | .inline logic => m.spawnChild logic none id systemId input event params
  | .key key =>
      match m.implementations.actors key with
      | some logic => m.spawnChild logic (some key) id systemId input event params
      | none => missing "actor" key

def stopChild (id : String) : StepM Unit := do
  let w ← get
  match SortedMap.find? id w.snapshot.children with
  | some child =>
      modifySnapshot fun s => { s with children := SortedMap.erase id s.children }
      pushEffect (.stop child)
  | none => pure ()
  recordAction "stopChild" (.obj [("id", .str id)])

def pushExec (name : String) (run : ActionArgs → Script (Except ActionError Unit)) (event : Event)
    (params : Json) : StepM Unit := do
  pushEffect (.exec name (← args event params) run)
  recordAction name params

/-- The actions of the first branch whose guard passes. -/
def chooseBranch (w : Work) (event : Event) :
    List (Branch (Action Logic)) → Except ActorError (List (Action Logic))
  | [] => .ok []
  | branch :: rest =>
      match m.definition.passes (m.situation w.snapshot) event branch.guard with
      | .ok true => .ok branch.actions
      | .ok false => chooseBranch w event rest
      | .error e => .error e

/-! ## Actions -/

/-- Carries out one action and gives the actions to carry out in its place. -/
def perform (event : Event) (task : Task) : StepM (List Task) := do
  let params := task.params
  match task.action with
  | .named name own =>
      -- Parameters of its own hide those of the reference that led here.
      let params := if own.isNull then params else own
      match m.implementations.actions name with
      | some (.custom run) =>
          pushExec name run event params
          return []
      | some found => return [{ action := found, params }]
      | none =>
          missing "action" name
          return []
  | .assign assignment =>
      assign assignment event params
      recordAction "assign" params
      return []
  | .raise expr delay id =>
      m.raiseSelf expr delay id event params
      return []
  | .sendTo target expr delay id =>
      m.sendTo target expr delay id event params
      return []
  | .log label value =>
      log label value event params
      return []
  | .spawn source id systemId input =>
      m.spawn? source id systemId input event params
      return []
  | .stop id =>
      stopChild id
      return []
  | .cancel id =>
      pushEffect (.cancel id)
      recordAction "cancel" (.obj [("id", .str id)])
      return []
  | .choose branches =>
      match m.chooseBranch (← get) event branches with
      | .ok actions => return actions.map fun action => { action, params }
      | .error e => throw e
  | .enqueue f => return (f (← args event params)).map fun action => { action, params }
  | .custom run =>
      pushExec "custom" run event params
      return []

/-- Carries out actions in order, those that stand in for one of them in its place; at most `fuel`
in all. -/
def performAll (event : Event) : Nat → List Task → StepM Unit
  | _, [] => return
  | 0, _ => do throw (.unsettled (← get).scope.id)
  | fuel + 1, task :: rest => do
      let instead ← m.perform event task
      performAll event fuel (instead ++ rest)

/-- How many actions a list may lead to, and how many microsteps a step may take, before it is
given up. -/
def patience : Nat := 1000000

/-- Carries out the actions of a list. -/
def execute (actions : List (Action Logic)) (event : Event) : StepM Unit :=
  m.performAll event patience (actions.map fun action => { action, params := .null })

end Machine

end Statechart
