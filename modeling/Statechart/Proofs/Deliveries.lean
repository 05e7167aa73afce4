import Statechart.Actor.Delivery
import Statechart.Proofs.Mailboxes
import Statechart.Proofs.Spawning
import Statechart.Proofs.Stages

/-!
# What deliveries can do

`Delivery.Moves` lists what can become of a system and of its top frame in one step. Calls come down
to four answers (`Answered`), and what behaviours do is told apart from what the runtime does about
it (`Reacts`, `Launches`, `Ends`).
-/

namespace Statechart

/-! ## Frames -/

/-- The actors that an effect stops. -/
def Effect.stops : Effect → List Session
  | .stop c => [c]
  | _ => []

/-- The actors that a frame stops. -/
def Frame.orders : Frame → List Session
  | .effects _ rest => rest.flatMap Effect.stops
  | .stopAll rest => rest
  | _ => []

/-- A frame that no actor's work goes on with, and that stops none. -/
structure Frame.Plain (f : Frame) : Prop where
  stage : f.stage = none
  orders : f.orders = []

/-- A frame that goes on with what an effect of an actor has led to. -/
def Frame.Aside (s : Session) (f : Frame) : Prop := f.stage = some (s, .aside)

theorem Frame.Aside.orders {s : Session} {f : Frame} (h : f.Aside s) : f.orders = [] := by
  cases f with
  | effects t rest => cases h
  | stopAll rest => cases h
  | _ => rfl

namespace System

variable {sys sys' : System} {s : Session} {a : Actor}

/-- Timers of one actor have been set, and nothing has happened to the actors. -/
structure Schedules (sys : System) (s : Session) (sys' : System) : Prop where
  actor? : ∀ t, sys'.actor? t = sys.actor? t
  next : sys'.nextSession = sys.nextSession
  registered : sys'.registered = sys.registered
  timers : ∀ t ∈ sys'.scheduler.timers, t ∈ sys.scheduler.timers ∨ t.2.owner = s

theorem Quiet.schedules (h : sys.Quiet sys') (s : Session) : sys.Schedules s sys' :=
  ⟨h.actor?, h.next, h.registered, fun t ht => .inl (h.timers t ht)⟩

theorem Quiet.keyed (h : sys.Quiet sys') (hkeyed : sys.Keyed) : sys'.Keyed :=
  fun s a ha => hkeyed s a (h.actor? s ▸ ha)

theorem Puts.keyed (h : sys.Puts s a sys') (hkeyed : sys.Keyed) (hsession : a.session = s) :
    sys'.Keyed := by
  intro t b hb
  rw [h.actor? t] at hb
  split at hb
  · rename_i heq
    cases hb
    exact hsession.trans heq
  · exact hkeyed t b hb

theorem puts_setMailbox (hkeyed : sys.Keyed) (ha : sys.actor? s = some a) (m : Mailbox) :
    sys.Puts s { a with mailbox := m } (sys.setMailbox s m) :=
  puts_modify (f := fun a => { a with mailbox := m }) hkeyed (fun _ => rfl) ha

theorem puts_setSnapshot (hkeyed : sys.Keyed) (ha : sys.actor? s = some a) (snapshot : Snapshot) :
    sys.Puts s { a with snapshot } (sys.setSnapshot s snapshot) :=
  puts_modify (f := fun a => { a with snapshot }) hkeyed (fun _ => rfl) ha

theorem quiet_modify (f : Actor → Actor) (ha : sys.actor? s = none) :
    sys.Quiet (sys.modify s f) := by
  rw [modify_none f ha]
  exact .refl sys

end System

namespace Delivery

/-! ## Calls -/

/-- What a call on an actor comes to. -/
inductive Answered (sys : System) (t : Session) : Call → System → List Frame → Prop
  /-- Nothing has come of the call. -/
  | refused {c : Call} {sys' : System} {frames : List Frame} (hquiet : sys.Quiet sys')
      (hframes : frames = [] ∨ frames = [.leave])
      (hstop : c = .stop → ∀ a, sys.actor? t = some a → a.status = .stopped) :
      Answered sys t c sys' frames
  /-- The mailbox has turned. It need not be worked off, or it is already. -/
  | posted {c : Call} {a : Actor} {m : Mailbox} {sys' : System} {frames : List Frame}
      (ha : sys.actor? t = some a) (hturns : a.mailbox.Turns c m) (hsettled : m.Settled)
      (hputs : sys.Puts t { a with mailbox := m } sys')
      (hframes : frames = [] ∨ frames = [.leave]) : Answered sys t c sys' frames
  /-- The mailbox has turned, and is worked off from now on. -/
  | claimed {c : Call} {a : Actor} {m m' : Mailbox} {sys' : System}
      (ha : sys.actor? t = some a) (hturns : a.mailbox.Turns c m)
      (hbegin : m.beginFlush? = some m') (hputs : sys.Puts t { a with mailbox := m' } sys') :
      Answered sys t c sys' [.drain t, .leave]
  /-- The actor is stopped before it has started. -/
  | halted {a : Actor} {sys' : System} (ha : sys.actor? t = some a)
      (hstatus : a.status = .notStarted)
      (hputs : sys.Puts t { a with snapshot := a.snapshot.stopped } sys') :
      Answered sys t .stop sys' [.halt t, .finish t, .reply (.ok ())]

/-- A call that a frame makes, with what is left to be done after it. Without a frame it is the
application that makes the call. -/
inductive Calls (sys : System) : Option Frame → Session → Call → List Frame → Prop
  | outside (t : Session) (c : Call) : Calls sys none t c []
  | send {s t : Session} {recipient : Destination} {event : Event} {id : Option String}
      {rest : List Effect} :
      Calls sys (some (.effects s (.send recipient event none id :: rest))) t (.send event)
        [.delivered s, .effects s rest]
  | start {s t : Session} {rest : List Effect} (h : t ∈ (sys.actor s).snapshot.sessions) :
      Calls sys (some (.effects s (.start t :: rest))) t .start [.effects s rest]
  | stop {s t : Session} {rest : List Effect} :
      Calls sys (some (.effects s (.stop t :: rest))) t .stop [.effects s rest]
  | stopAll {t : Session} {rest : List Session} :
      Calls sys (some (.stopAll (t :: rest))) t .stop [.stopAll rest]
  | tell {s t : Session} {event : Event} (hparent : (sys.actor s).parent = some t) :
      Calls sys (some (.tellParent s event)) t (.send event) []
  | script {owner : Option Session} {name : String} {t : Session} {c : Call}
      {next : Reply → Script (Except ActionError Unit)} :
      Calls sys (some (.script owner (.call name c next))) t c [.resume owner t next]
  | fire {time : Nat} {moving : Bool} {t : Session} {event : Event} :
      Calls sys (some (.fire time moving)) t (.send event) [.fired t, .fire time moving]

/-! ## Behaviours -/

/-- What comes of the behaviour of an actor when it takes an event. -/
inductive Reacts (sys : System) (a : Actor) (event : Event) :
    System → Snapshot → List Effect → Option ActorError → Prop
  | ok {scope : Scope} {next : Snapshot}
      (h : a.logic.transition spawn (scopeOf sys a) a.snapshot event = (scope, .ok next)) :
      Reacts sys a event scope.system next scope.effects none
  | error {scope : Scope} {e : ActorError}
      (h : a.logic.transition spawn (scopeOf sys a) a.snapshot event = (scope, .error e)) :
      Reacts sys a event scope.system (a.snapshot.failed e.toJson) [] (some e)

/-- What comes of the behaviour of an actor when it starts. -/
inductive Launches (sys : System) (a : Actor) (snapshot : Snapshot) :
    System → Snapshot → List Effect → Option ActorError → Prop
  | ok {scope : Scope} {next : Option Snapshot}
      (h : a.logic.start (scopeOf sys a) snapshot = (scope, .ok next)) :
      Launches sys a snapshot scope.system (next.getD snapshot) scope.effects none
  | error {scope : Scope} {e : ActorError}
      (h : a.logic.start (scopeOf sys a) snapshot = (scope, .error e)) :
      Launches sys a snapshot scope.system (snapshot.failed e.toJson) [] (some e)

/-- What comes of the behaviour of an actor when it stops. -/
inductive Ends (sys : System) (a : Actor) : System → Snapshot → List Effect → Prop
  | ok {scope : Scope} {next : Snapshot}
      (h : a.logic.stop spawn (scopeOf sys a) a.snapshot = (scope, .ok next)) :
      Ends sys a scope.system next scope.effects
  | error {scope : Scope} {e : ActorError}
      (h : a.logic.stop spawn (scopeOf sys a) a.snapshot = (scope, .error e)) :
      Ends sys a scope.system a.snapshot.stopped scope.effects

section Behaviours

variable {sys sys' : System} {s : Session} {a : Actor} {event : Event} {snapshot next : Snapshot}
  {effects : List Effect} {failure : Option ActorError}

theorem belongs_scopeOf (hsound : sys.Sound) (ha : sys.actor? s = some a) :
    (scopeOf sys a).Belongs (some s) := by
  intro p hp
  cases hp
  exact ⟨(hsound.keyed s a ha).symm, hsound.fresh s a ha⟩

theorem Reacts.spec (h : Reacts sys a event sys' next effects failure) (hsound : sys.Sound)
    (ha : sys.actor? s = some a) : sys.Thrives sys' ∧ next.Suits sys' (some s) a.logic ∧
      Lineage sys sys' s effects (some event) a.snapshot.children next.children := by
  have hsuits := hsound.suits s a ha
  have hsession := hsound.keyed s a ha
  cases h with
  | ok h =>
      obtain ⟨hnext, hlineage⟩ :=
        Logic.transition_spec h sound_spawn hsound (belongs_scopeOf hsound ha) hsuits
      exact ⟨Logic.transition_thrives h sound_spawn hsound, hnext, hsession ▸ hlineage⟩
  | error h =>
      have hthrives := Logic.transition_thrives h sound_spawn hsound
      refine ⟨hthrives, (hsuits.failed _).mono hthrives.grown.follows, ?_⟩
      rw [Snapshot.children_failed]
      exact (Lineage.refl _ _ _ _ _).mono hthrives.grown.follows (List.Subset.refl _)

theorem Launches.spec (h : Launches sys a snapshot sys' next effects failure)
    (hsound : sys.Sound) (hsuits : snapshot.Suits sys (some s) a.logic) :
    sys.Thrives sys' ∧ next.Suits sys' (some s) a.logic ∧ next.children = snapshot.children := by
  cases h with
  | ok h =>
      have hthrives := Logic.start_thrives h hsound
      obtain ⟨hnext, hchildren⟩ := Logic.start_spec h hsuits
      exact ⟨hthrives, hnext, hchildren⟩
  | error h =>
      have hthrives := Logic.start_thrives h hsound
      exact ⟨hthrives, (hsuits.failed _).mono hthrives.grown.follows, Snapshot.children_failed _ _⟩

theorem Ends.spec (h : Ends sys a sys' next effects) (hsound : sys.Sound)
    (ha : sys.actor? s = some a) : sys.Thrives sys' ∧ next.Suits sys' (some s) a.logic ∧
      Lineage sys sys' s effects none a.snapshot.children next.children := by
  have hsuits := hsound.suits s a ha
  have hsession := hsound.keyed s a ha
  cases h with
  | ok h =>
      obtain ⟨hnext, hlineage⟩ :=
        Logic.stop_spec h sound_spawn hsound (belongs_scopeOf hsound ha) hsuits
      exact ⟨Logic.stop_thrives h sound_spawn hsound, hnext, hsession ▸ hlineage⟩
  | error h =>
      have hthrives := Logic.stop_thrives h sound_spawn hsound
      refine ⟨hthrives, hsuits.stopped.mono hthrives.grown.follows, ?_⟩
      rw [Snapshot.children_stopped]
      exact (Lineage.refl _ _ _ _ _).mono hthrives.grown.follows (List.Subset.refl _)

/-- An actor that is stopped is never taken to be done, or to have failed. -/
theorem Ends.status (h : Ends sys a sys' next effects) : next.status = .stopped := by
  cases h with
  | ok h => exact Logic.status_of_stop h
  | error => exact Snapshot.status_stopped _

end Behaviours

/-! ## Steps -/

/-- What can become of a system and of the top frame, if there is one. -/
inductive Moves (sys : System) : Option Frame → System → List Frame → Prop
  /-- Nothing that concerns the work of an actor. -/
  | idled {top : Option Frame} {sys' : System} {xs : List Frame}
      (htop : ∀ f, top = some f → f.Plain) (hquiet : sys.Quiet sys') (hxs : ∀ f ∈ xs, f.Plain) :
      Moves sys top sys' xs
  /-- The application has had actors made. -/
  | grown {sys' : System} (h : sys.Thrives sys') : Moves sys none sys' []
  /-- The application follows an actor, or does so no longer. -/
  | watched {s : Session} {a : Actor} {sys' : System} (observers : List (Nat × Observer))
      (ha : sys.actor? s = some a) (hputs : sys.Puts s { a with observers } sys') :
      Moves sys none sys' []
  | called {top : Option Frame} {t : Session} {c : Call} {below : List Frame} {sys₁ sys' : System}
      {xs : List Frame} (hcalls : Calls sys top t c below) (hquiet : sys.Quiet sys₁)
      (h : Answered sys₁ t c sys' xs) : Moves sys top sys' (xs ++ below)
  /-- What an effect has led to goes on, or ends. -/
  | resumed {f : Frame} {s : Session} {sys' : System} {xs : List Frame} (hf : f.Aside s)
      (hquiet : sys.Quiet sys') (hxs : xs = [] ∨ ∃ g : Frame, g.Aside s ∧ xs = [g]) :
      Moves sys (some f) sys' xs
  /-- What an effect has led to ends with an event for the actor itself. -/
  | posted {f : Frame} {s : Session} {a : Actor} {event : Event} {sys' : System} (hf : f.Aside s)
      (ha : sys.actor? s = some a)
      (hputs : sys.Puts s { a with mailbox := (a.mailbox.enqueue event true).1 } sys') :
      Moves sys (some f) sys' []
  | exhausted {s : Session} {sys' : System} (hquiet : sys.Quiet sys') :
      Moves sys (some (.effects s [])) sys' []
  /-- An effect is carried out that is no call. -/
  | performed {s : Session} {e : Effect} {rest : List Effect} {sys' : System}
      (he : e.stops = []) (h : sys.Schedules s sys') :
      Moves sys (some (.effects s (e :: rest))) sys' [.effects s rest]
  /-- An effect leads to something that comes before the other ones. -/
  | interrupted {s : Session} {e : Effect} {rest : List Effect} {g : Frame}
      (he : e.stops = []) (hg : g.Aside s) :
      Moves sys (some (.effects s (e :: rest))) sys [g, .effects s rest]
  | settled {s : Session} {snapshot : Snapshot} {failure : Option ActorError} {sys' : System}
      (hquiet : sys.Quiet sys') (hdone : snapshot.status ≠ .done)
      (herror : snapshot.status ≠ .error) : Moves sys (some (.settle s snapshot failure)) sys' []
  | done {s : Session} {snapshot : Snapshot} {failure : Option ActorError} {sys' : System}
      (hquiet : sys.Quiet sys') (hstatus : snapshot.status = .done) :
      Moves sys (some (.settle s snapshot failure)) sys'
        [.halt s, .finish s, .tellParent s (fromChild (sys.actor s)
          (.doneActor (sys.actor s).id (snapshot.output.getD .null)))]
  | broken {s : Session} {snapshot : Snapshot} {failure : Option ActorError} {sys' : System}
      (hquiet : sys.Quiet sys') (hstatus : snapshot.status = .error) :
      Moves sys (some (.settle s snapshot failure)) sys' [.halt s, .failed s snapshot failure]
  | reported {s : Session} {snapshot : Snapshot} {failure : Option ActorError} {sys' : System}
      {before : List Frame} (hquiet : sys.Quiet sys') (hbefore : ∀ f ∈ before, f.Plain) :
      Moves sys (some (.failed s snapshot failure)) sys' (before ++ [.tellParent s
        (fromChild (sys.actor s) (.errorPlatform (sys.actor s).id (snapshot.error.getD .null)))])
  /-- There is nobody to tell. -/
  | untold {s : Session} {event : Event} {sys' : System} (hquiet : sys.Quiet sys') :
      Moves sys (some (.tellParent s event)) sys' []
  | emptied {s : Session} {a : Actor} {m : Mailbox} {sys' : System} (ha : sys.actor? s = some a)
      (hnext : a.mailbox.next = (m, none)) (hputs : sys.Puts s { a with mailbox := m } sys') :
      Moves sys (some (.drain s)) sys' []
  /-- An event is taken by an actor that is no longer active. -/
  | passed {s : Session} {a : Actor} {m : Mailbox} {event : Event} {sys' : System}
      (ha : sys.actor? s = some a) (hnext : a.mailbox.next = (m, some event))
      (hinit : event.name ≠ Event.initName) (hstop : event.name ≠ Event.stopName)
      (hactive : a.snapshot.status ≠ .active)
      (hputs : sys.Puts s { a with mailbox := m } sys') : Moves sys (some (.drain s)) sys' [.drain s]
  /-- The init signal is taken. -/
  | begun {s : Session} {a : Actor} {m : Mailbox} {event : Event} {sys' : System}
      (ha : sys.actor? s = some a) (hnext : a.mailbox.next = (m, some event))
      (hinit : event.name = Event.initName)
      (hputs : sys.Puts s { a with mailbox := m, pending := [] } sys') :
      Moves sys (some (.drain s)) sys' [.effects s a.pending, .launch s a.snapshot, .drain s]
  /-- The stop signal is taken. -/
  | stopped {s : Session} {a : Actor} {m : Mailbox} {event : Event} {sys₀ sys₁ sys' : System}
      {next : Snapshot} {effects : List Effect} {kept : List Session}
      (ha : sys.actor? s = some a) (hnext : a.mailbox.next = (m, some event))
      (hstop : event.name = Event.stopName) (htook : sys.Puts s { a with mailbox := m } sys₀)
      (hends : Ends sys₀ { a with mailbox := m } sys₁ next effects)
      (hputs : sys₁.Puts s { a with mailbox := m.close, snapshot := next } sys') :
      Moves sys (some (.drain s)) sys'
        [.effects s effects, .halt s, .finish s, .keep kept, .drain s]
  /-- An event is taken by an actor that is active. -/
  | reacted {s : Session} {a : Actor} {m : Mailbox} {event : Event} {sys₀ sys₁ sys' : System}
      {next : Snapshot} {effects : List Effect} {failure : Option ActorError}
      {kept : List Session} (ha : sys.actor? s = some a)
      (hnext : a.mailbox.next = (m, some event)) (hinit : event.name ≠ Event.initName)
      (hstop : event.name ≠ Event.stopName) (hactive : a.snapshot.status = .active)
      (htook : sys.Puts s { a with mailbox := m } sys₀)
      (hreacts : Reacts sys₀ { a with mailbox := m } event sys₁ next effects failure)
      (hputs : sys₁.Puts s { a with mailbox := m, snapshot := next } sys') :
      Moves sys (some (.drain s)) sys' [.effects s effects, .notify a.observers (.next next),
        .settle s next failure, .keep kept, .drain s]
  | launched {s : Session} {snapshot : Snapshot} {a : Actor} {sys₁ sys' : System}
      {next : Snapshot} {effects : List Effect} {failure : Option ActorError}
      (ha : sys.actor? s = some a) (hlaunches : Launches sys a snapshot sys₁ next effects failure)
      (hputs : sys₁.Puts s { a with snapshot := next } sys') :
      Moves sys (some (.launch s snapshot)) sys' [.effects s effects,
        .notify a.observers (.next next), .settle s next failure]
  | halted {s : Session} {a : Actor} {sys' : System} (ha : sys.actor? s = some a)
      (hputs : sys.Puts s { a with mailbox := a.mailbox.close } sys') :
      Moves sys (some (.halt s)) sys' [.stopAll a.snapshot.sessions, .retire s]
  | retired {s : Session} {sys' : System} (hactors : ∀ t, sys'.actor? t = sys.actor? t)
      (hnext : sys'.nextSession = sys.nextSession)
      (hregistered : sys'.registered = sys.registered.erase s.number)
      (htimers : ∀ t ∈ sys'.scheduler.timers, t ∈ sys.scheduler.timers ∧ t.2.owner ≠ s) :
      Moves sys (some (.retire s)) sys' []
  | finished {s : Session} {a : Actor} {sys' : System} (ha : sys.actor? s = some a)
      (hputs : sys.Puts s { a with observers := [] } sys') :
      Moves sys (some (.finish s)) sys' [.notify a.observers .complete]

section

variable {sys sys₁ sys' : System}

theorem plain_singleton {f : Frame} (hf : f.Plain) : ∀ g ∈ [f], g.Plain := by simpa using hf

/-- What no actor's work goes on with. -/
theorem Moves.plain {f : Frame} {xs : List Frame} (hf : f.Plain) (hquiet : sys.Quiet sys')
    (hxs : ∀ g ∈ xs, g.Plain) : Moves sys (some f) sys' xs := by
  refine .idled (fun g hg => ?_) hquiet hxs
  cases hg
  exact hf

theorem Moves.vanished {f : Frame} (hf : f.Plain) (hquiet : sys.Quiet sys') :
    Moves sys (some f) sys' [] := .plain hf hquiet (by simp)

/-- A call before other frames. -/
theorem Moves.call {top : Option Frame} {t : Session} {c : Call} {below : List Frame} {x : Delivery}
    (hcalls : Calls sys top t c below) (h : Answered sys t c x.system x.frames) :
    Moves sys top (x.before below).system (x.before below).frames :=
  .called hcalls (.refl sys) h

end

end Delivery

end Statechart
