import Statechart.Actor.Spawn

/-!
# Deliveries

Calls on actors are carried out at once, and may lead to further calls from effects, observers and
supplied functions. What is still to be done stands on a stack of frames; `Delivery.step` carries
out the top frame, and `Delivery.run` goes on until nothing is left.

An actor works off its mailbox in one `drain` frame at a time. Events that reach it meanwhile wait
in the mailbox until that frame takes them.
-/

namespace Statechart

/-- Something still to be done. -/
inductive Frame where
  /-- Take the next event of an actor, until there is none. -/
  | drain (s : Session)
  /-- Carry out effects of an actor. -/
  | effects (s : Session) (rest : List Effect)
  /-- See whether a send of an actor has failed. -/
  | delivered (s : Session)
  /-- Let the behaviour of an actor start from a snapshot. -/
  | launch (s : Session) (snapshot : Snapshot)
  /-- Tell observers something. -/
  | notify (observers : List (Nat × Observer)) (what : Notification)
  /-- Wind up an actor if its snapshot is done or has failed. -/
  | settle (s : Session) (snapshot : Snapshot) (failure : Option ActorError)
  /-- Report the failure of an actor. -/
  | failed (s : Session) (snapshot : Snapshot) (failure : Option ActorError)
  /-- Close an actor and stop its children. -/
  | halt (s : Session)
  | stopAll (rest : List Session)
  /-- Take an actor out of the system. -/
  | retire (s : Session)
  /-- Tell the observers of an actor that nothing more will come. -/
  | finish (s : Session)
  /-- Send the parent of an actor an event. -/
  | tellParent (s : Session) (event : Event)
  /-- Run a script, for an actor that hears of its failure or for nobody. -/
  | script (owner : Option Session) (body : Script (Except ActionError Unit))
  /-- Go on with a script after a call on an actor. -/
  | resume (owner : Option Session) (target : Session)
      (next : Reply → Script (Except ActionError Unit))
  /-- Keep actors alive up to here. -/
  | keep (sessions : List Session)
  /-- End a delivery. -/
  | leave
  /-- Answer a call. -/
  | reply (result : Except ActorError Unit)
  /-- Send the timers that are due by some time, with or without moving the clock. -/
  | fire (time : Nat) (moving : Bool)
  /-- See whether a timer's event was taken. -/
  | fired (s : Session)
  /-- Move the clock. -/
  | arrive (time : Nat)

/-- The actors that a frame keeps alive. -/
def Frame.keeps : Frame → List Session
  | .drain s => [s]
  | .effects s rest => s :: rest.flatMap Effect.keeps
  | .delivered s => [s]
  | .launch s snapshot => s :: snapshot.sessions
  | .notify _ (.next snapshot) => snapshot.sessions
  | .notify _ _ => []
  | .settle s snapshot _ => s :: snapshot.sessions
  | .failed s snapshot _ => s :: snapshot.sessions
  | .halt s => [s]
  | .stopAll rest => rest
  | .retire s => [s]
  | .finish s => [s]
  | .tellParent s _ => [s]
  | .script owner _ => owner.toList
  | .resume owner target _ => target :: owner.toList
  | .keep sessions => sessions
  | .leave => []
  | .reply _ => []
  | .fire _ _ => []
  | .fired s => [s]
  | .arrive _ => []

/-- A system with calls in progress. `answer` is that of the last call that has ended. -/
structure Delivery where
  system : System
  frames : List Frame := []
  answer : Except ActorError Unit := .ok ()

instance : Inhabited Delivery := ⟨{ system := default }⟩

namespace Delivery

def done (sys : System) : Delivery := { system := sys }

def doing (sys : System) (frames : List Frame) : Delivery := { system := sys, frames }

/-- The same with more frames below. -/
def before (d : Delivery) (frames : List Frame) : Delivery :=
  { d with frames := d.frames ++ frames }

/-! ## Calls -/

/-- Begins a delivery to an actor, which works off its mailbox unless it is doing so already. -/
def flush (sys : System) (s : Session) : Delivery :=
  let sys := sys.enter
  match (sys.actor s).mailbox.beginFlush? with
  | some mailbox => doing (sys.setMailbox s mailbox) [.drain s, .leave]
  -- Whoever is working off the mailbox takes what has come.
  | none => doing sys [.leave]

/-- Reports a mailbox that has grown to the length set for it. -/
def checkMailbox (sys : System) (s : Session) : System :=
  let a := sys.actor s
  let queued := a.mailbox.queue.length
  -- Equality, since the warning is for reaching the length and not for staying above it.
  if queued = sys.config.mailboxWarnLen then sys.note (.mailboxBackingUp a.id queued) else sys

def send (sys : System) (s : Session) (event : Event) : Delivery :=
  let a := sys.actor s
  match a.logic.accepts spawn event with
  | .error e => { system := sys, answer := .error e }
  | .ok () =>
      let (mailbox, offer) := a.mailbox.enqueue event sys.config.deferEvents
      let sys := checkMailbox (sys.setMailbox s mailbox) s
      match offer with
      | .ready => flush sys s
      | .buffered => done sys
      | .dropped =>
          done (if sys.config.warnOnDropped then sys.note (.eventDropped a.id event.name) else sys)
      | .rejected => { system := sys, answer := .error (.notStarted a.id) }

def start (sys : System) (s : Session) : Delivery :=
  let a := sys.actor s
  match a.mailbox.start? with
  | none => done sys
  | some mailbox =>
      flush ((sys.setMailbox s mailbox).note (.actorStarted a.id s.text)) s

def stop (sys : System) (s : Session) : Delivery :=
  match sys.actor? s with
  | none => done sys
  | some a =>
      match a.status with
      | .running => flush (sys.setMailbox s a.mailbox.requestStop) s
      | .notStarted =>
          -- No drain would take a stop signal before the start, so the actor is wound up at once.
          doing (sys.setSnapshot s a.snapshot.stopped) [.halt s, .finish s, .reply (.ok ())]
      | .stopped => done sys

def call (sys : System) (s : Session) : Call → Delivery
  | .start => start sys s
  | .stop => stop sys s
  | .send event => send sys s event

/-! ## Processing one event -/

/-- The scope in which an actor's behaviour runs. -/
def scopeOf (sys : System) (a : Actor) : Scope where
  system := sys
  session := a.session
  id := a.id
  parent := a.parent

/-- Puts a new snapshot in place: its effects are carried out, the observers are told, and an actor
that is done or has failed is wound up. -/
def commit (sys : System) (s : Session) (next : Snapshot) (effects : List Effect)
    (failure : Option ActorError) : Delivery :=
  doing (sys.setSnapshot s next)
    [.effects s effects, .notify (sys.actor s).observers (.next next), .settle s next failure]

/-- Puts the old snapshot in place as that of an actor that has failed. -/
def abandon (sys : System) (s : Session) (old : Snapshot) (e : ActorError) : Delivery :=
  commit sys s (old.failed e.toJson) [] (some e)

def handleInit (sys : System) (s : Session) : Delivery :=
  let a := sys.actor s
  doing (sys.modify s fun a => { a with pending := [] })
    [.effects s a.pending, .launch s a.snapshot]

def handleStop (sys : System) (s : Session) : Delivery :=
  let a := sys.actor s
  let (scope, result) := a.logic.stop spawn (scopeOf sys a) a.snapshot
  let (sys, next) := match result with
    | .ok next => (scope.system, next)
    -- An actor whose stop fails is stopped all the same.
    | .error e => (scope.system.note (.stopFailed a.id e.message), a.snapshot.stopped)
  let sys := sys.modify s fun a => { a with snapshot := next, mailbox := a.mailbox.close }
  doing sys [.effects s scope.effects, .halt s, .finish s, .keep a.snapshot.sessions]

def handleEvent (sys : System) (s : Session) (event : Event) : Delivery :=
  let a := sys.actor s
  if a.snapshot.status = .active then
    let (scope, result) := a.logic.transition spawn (scopeOf sys a) a.snapshot event
    -- Children that the step lets go live on until their stop has been carried out.
    let old := a.snapshot.sessions
    match result with
    | .ok next => (commit scope.system s next scope.effects none).before [.keep old]
    | .error e =>
        (abandon scope.system s a.snapshot e).before
          [.keep (old ++ scope.effects.flatMap Effect.keeps)]
  else done sys

def process (sys : System) (s : Session) (event : Event) : Delivery :=
  if event.name = Event.initName then handleInit sys s
  else if event.name = Event.stopName then handleStop sys s
  else handleEvent sys s event

def launch (sys : System) (s : Session) (snapshot : Snapshot) : Delivery :=
  let a := sys.actor s
  let (scope, result) := a.logic.start (scopeOf sys a) snapshot
  match result with
  | .ok next => commit scope.system s (next.getD snapshot) scope.effects none
  | .error e => abandon scope.system s snapshot e

/-! ## Carrying out effects -/

/-- Puts an event into an actor's own mailbox, to be taken later. -/
def enqueueSelf (sys : System) (s : Session) (event : Event) : System :=
  sys.setMailbox s ((sys.actor s).mailbox.enqueue event true).1

/-- Sends an event to a recipient. -/
def deliver (sys : System) (s : Session) (recipient : Destination) (event : Event) : Delivery :=
  match recipient with
  | .actor target => send sys target event
  | .session target =>
      match sys.lookup? target with
      | some target => send sys target event
      | none =>
          { system := sys, answer := .error (.communication (sys.actor s).id target.text) }

/-- An error that a send of an actor has met goes to the caller or, where there is a parent, to the
actor itself. -/
def afterSend (sys : System) (s : Session) (answer : Except ActorError Unit) : System :=
  match answer with
  | .ok () => sys
  | .error e =>
      if (sys.actor s).parent.isNone then sys.recordUnhandled e
      else enqueueSelf sys s (.errorExecution e.toJson)

def effect (sys : System) (s : Session) : Effect → Delivery
  | .send recipient event none _ => (deliver sys s recipient event).before [.delivered s]
  | .send recipient event (some ms) id => done (sys.schedule s id ms recipient event)
  | .start child =>
      -- The step may have let the child go again after asking for its start.
      if child ∈ (sys.actor s).snapshot.sessions then start sys child else done sys
  | .stop child => stop sys child
  | .cancel id => done (sys.cancel s id)
  | .log label value => done (sys.record (.logged label (sys.actor s).id value))
  | .exec _ args run => doing sys [.script (some s) (run args)]

/-! ## Winding up -/

def fromChild (a : Actor) (event : Event) : Event :=
  { event with origin := some a.session.text }

def settle (sys : System) (s : Session) (snapshot : Snapshot) (failure : Option ActorError) :
    Delivery :=
  let a := sys.actor s
  match snapshot.status with
  | .done =>
      let event := fromChild a (.doneActor a.id (snapshot.output.getD .null))
      doing (sys.note (.actorDone a.id)) [.halt s, .finish s, .tellParent s event]
  | .error => doing sys [.halt s, .failed s snapshot failure]
  | _ => done sys

/-- A failure goes to the observers that take errors. If there are none, and no parent, it goes to
the caller. -/
def failed (sys : System) (s : Session) (snapshot : Snapshot) (failure : Option ActorError) :
    Delivery :=
  let a := sys.actor s
  let data := snapshot.error.getD .null
  let e := failure.getD (.unhandled a.id data)
  let event := fromChild a (.errorPlatform a.id data)
  match a.observers.filter fun o => o.2.handlesErrors with
  | [] =>
      if a.parent.isNone then
        doing ((sys.note (.unhandledActorError a.id e.message)).recordUnhandled e)
          [.tellParent s event]
      else doing sys [.tellParent s event]
  | handlers => doing sys [.notify handlers (.error e), .tellParent s event]

def halt (sys : System) (s : Session) : Delivery :=
  let a := sys.actor s
  doing (sys.setMailbox s a.mailbox.close) [.stopAll a.snapshot.sessions, .retire s]

def retire (sys : System) (s : Session) : System :=
  let a := sys.actor s
  ((sys.cancelOwner s).unregister s a.systemId).note (.actorStopped a.id s.text)

def finish (sys : System) (s : Session) : Delivery :=
  doing (sys.modify s fun a => { a with observers := [] })
    [.notify (sys.actor s).observers .complete]

def tellParent (sys : System) (s : Session) (event : Event) : Delivery :=
  match (sys.actor s).parent.bind sys.lookup? with
  | some parent => send sys parent event
  | none => done sys

/-! ## Observers and scripts -/

/-- How many snapshots an observer has seen. -/
def seenBy (sys : System) (number : Nat) : Nat := (SortedMap.find? number sys.seen).getD 0

/-- Tells one observer something. -/
def notifyOne (sys : System) (number : Nat) (o : Observer) (what : Notification) : Delivery :=
  let seen := seenBy sys number
  let sys := match what with
    | .next _ => { sys with seen := SortedMap.insert number (seen + 1) sys.seen }
    | _ => sys
  match o.react seen what with
  | some body => doing sys [.script none (body.map Except.ok)]
  | none => done sys

/-- Takes one step of a script. -/
def script (sys : System) (owner : Option Session) :
    Script (Except ActionError Unit) → Delivery
  | .done (.ok ()) => done sys
  | .done (.error e) =>
      match owner with
      | some s => done (enqueueSelf sys s (.errorExecution e.toJson))
      | none => done sys
  | .report line next => doing (sys.record (.line line)) [.script owner next]
  | .call name request next =>
      match sys.held? name with
      | none => doing sys [.script owner (next .unknown)]
      | some target => (call sys target request).before [.resume owner target next]

/-! ## Subscriptions -/

/-- Tells a new observer that nothing more will come. -/
def tellEnd (sys : System) (o : Observer) : Delivery :=
  doing { sys with nextObserver := sys.nextObserver + 1 }
    [.notify [(sys.nextObserver, o)] .complete]

/-- Lets a new observer follow an actor. If the actor has stopped already the observer is only told
that nothing more will come. -/
def subscribe (sys : System) (s : Session) (o : Observer) : Delivery × Subscription :=
  let number := sys.nextObserver
  if (sys.actor s).status = .stopped then (tellEnd sys o, { target := none })
  else
    (done ({ sys with nextObserver := number + 1 }.modify s fun a =>
        { a with observers := a.observers ++ [(number, o)] }),
      { target := some (s, number) })

/-! ## Timers -/

/-- Sends the event of a timer. -/
def fireTimer (sys : System) (timer : Timer) : Delivery :=
  let target := match timer.target with
    | .actor s => some s
    | .session s => sys.lookup? s
  match target with
  | some s => (send sys s timer.event).before [.fired s]
  | none => done sys

def fire (sys : System) (time : Nat) (moving : Bool) : Delivery :=
  match sys.scheduler.popDue? time with
  | none => done sys
  | some (timer, scheduler) =>
      let sys := { sys with scheduler }
      -- A timer that is overdue does not turn the clock back.
      let sys := if moving then sys.setNow (max sys.clock.now timer.due) else sys
      (fireTimer sys timer).before [.fire time moving]

/-- Reports an error that a timer's event has met. -/
def afterFire (sys : System) (s : Session) (answer : Except ActorError Unit) : System :=
  match answer with
  | .ok () => sys
  | .error e => sys.note (.timerDeliveryFailed (sys.actor s).id e.message)

/-! ## Steps -/

/-- Carries out one frame. -/
def frame (sys : System) (answer : Except ActorError Unit) : Frame → Delivery
  | .drain s =>
      let (mailbox, next) := (sys.actor s).mailbox.next
      let sys := sys.setMailbox s mailbox
      match next with
      | none => done sys
      -- The frame stays, below all that the event leads to; what comes meanwhile is queued.
      | some event => (process sys s event).before [.drain s]
  | .effects _ [] => done sys
  | .effects s (e :: rest) => (effect sys s e).before [.effects s rest]
  | .delivered s => done (afterSend sys s answer)
  | .launch s snapshot => launch sys s snapshot
  | .notify [] _ => done sys
  | .notify ((number, o) :: rest) what =>
      (notifyOne sys number o what).before [.notify rest what]
  | .settle s snapshot failure => settle sys s snapshot failure
  | .failed s snapshot failure => failed sys s snapshot failure
  | .halt s => halt sys s
  | .stopAll [] => done sys
  | .stopAll (s :: rest) => (stop sys s).before [.stopAll rest]
  | .retire s => done (retire sys s)
  | .finish s => finish sys s
  | .tellParent s event => tellParent sys s event
  | .script owner body => script sys owner body
  | .resume owner target next =>
      doing sys [.script owner (next (.answered answer (sys.actor target).status))]
  | .keep _ => done sys
  | .leave =>
      let (sys, answer) := sys.leave
      { system := sys, answer }
  | .reply result => { system := sys, answer := result }
  | .fire time moving => fire sys time moving
  | .fired s => done (afterFire sys s answer)
  | .arrive time => done (sys.setNow time)

/-- The actors that all frames keep alive. -/
def pins (frames : List Frame) : List Session := frames.flatMap Frame.keeps

/-- Carries out the top frame. -/
def step (d : Delivery) : Delivery :=
  match d.frames with
  | [] => d
  | top :: rest =>
      -- The top frame runs while all frames, itself included, keep alive what they refer to.
      (frame { d.system with pins := pins d.frames } d.answer top).before rest

/-- Takes at most `fuel` steps, and gives up if that is not enough. -/
def run : Nat → Delivery → System × Except ActorError Unit
  | fuel, d =>
      match d.frames, fuel with
      | [], _ => ({ d.system with pins := [] }, d.answer)
      | _ :: _, 0 => ({ d.system with pins := [] }, .error (.unsettled ""))
      | _ :: _, fuel + 1 => run fuel d.step

end Delivery

end Statechart
