import Statechart.Proofs.Keeping

/-!
# What moves do to actors

`Evolves` tells for a single actor what a move can do to it: its mailbox goes on, it is closed, or
its behaviour gives it a new snapshot. `Moves.evolves` says that there is nothing else, whoever the
move is about.
-/

namespace Statechart

/-! ## Mailboxes that go on -/

/-- Something waits that stops the actor. -/
def Mailbox.AsksStop (m : Mailbox) : Prop :=
  m.status = .running ∧ ∃ event ∈ m.queue, event.name = Event.stopName

/-- A mailbox goes on: it is neither opened nor closed, and a request to stop is not forgotten. -/
structure Mailbox.Continues (m m' : Mailbox) : Prop where
  status : m'.status = m.status
  stop : m.AsksStop → m'.AsksStop

namespace Mailbox

variable {m m' m'' : Mailbox}

theorem Continues.refl (m : Mailbox) : m.Continues m := ⟨rfl, id⟩

theorem continues_same (hstatus : m'.status = m.status) (hqueue : m.queue ⊆ m'.queue) :
    m.Continues m' := by
  refine ⟨hstatus, fun ⟨hrunning, event, hevent, hname⟩ => ?_⟩
  exact ⟨hstatus.trans hrunning, event, hqueue hevent, hname⟩

theorem Continues.trans (h : m.Continues m') (h' : m'.Continues m'') : m.Continues m'' :=
  ⟨h'.status.trans h.status, h'.stop ∘ h.stop⟩

theorem continues_enqueue (m : Mailbox) (event : Event) (defer : Bool) :
    m.Continues (m.enqueue event defer).1 := by
  have hpush : m.Continues (m.push event) := continues_same rfl (List.subset_append_left _ _)
  unfold enqueue
  split
  · exact .refl m
  · split
    · exact hpush
    · exact .refl m
  · exact hpush

/-- Only a start opens a mailbox. -/
theorem Turns.continues {c : Call} (h : m.Turns c m') :
    m.Continues m' ∨ c = .start ∧ m.status = .notStarted ∧ m'.status = .running := by
  cases h with
  | sent event defer => exact .inl (continues_enqueue m event defer)
  | started hstart =>
      obtain ⟨hnew, hm⟩ := Option.ite_none_right_eq_some.mp hstart
      cases hm
      exact .inr ⟨rfl, hnew, rfl⟩
  | stopAsked hrunning =>
      exact .inl ⟨rfl, fun _ => ⟨hrunning, stopSignal, List.mem_singleton_self _, rfl⟩⟩

/-- After a stop is asked for, something waits that stops the actor. -/
theorem Turns.asksStop (h : m.Turns .stop m') : m'.AsksStop := by
  cases h with
  | stopAsked hrunning => exact ⟨hrunning, stopSignal, List.mem_singleton_self _, rfl⟩

theorem continues_beginFlush (h : m.beginFlush? = some m') : m.Continues m' := by
  obtain ⟨-, hm⟩ := Option.ite_none_left_eq_some.mp h
  cases hm
  exact continues_same rfl (List.Subset.refl _)

theorem continues_empty (h : m.next = (m', none)) : m.Continues m' := by
  unfold next at h
  split at h
  · cases h
    exact continues_same rfl (List.Subset.refl _)
  · cases h

/-- Taking any other event leaves a request to stop in place. -/
theorem continues_take {event : Event} (h : m.next = (m', some event))
    (hname : event.name ≠ Event.stopName) : m.Continues m' := by
  obtain ⟨hqueue, hm⟩ := next_some h
  have hstatus : m'.status = m.status := by rw [hm]
  refine ⟨hstatus, fun ⟨hrunning, stop, hstop, hstopName⟩ => ?_⟩
  rw [hqueue] at hstop
  rcases List.mem_cons.mp hstop with rfl | hstop
  · exact absurd hstopName hname
  · exact ⟨hstatus.trans hrunning, stop, hstop, hstopName⟩

end Mailbox

/-- What was there before counts as long as less had been made then. -/
theorem Lineage.since {sys sys₀ sys' : System} {parent : Session} {effects : List Effect}
    {external : Option Event} {old new : List (String × Session)}
    (h : Lineage sys₀ sys' parent effects external old new)
    (hnext : sys.nextSession ≤ sys₀.nextSession) :
    Lineage sys sys' parent effects external old new where
  kept c hc := by
    rcases h.kept c hc with hnew | hstop | hreport | hreplaced
    · exact .inl hnew
    · exact .inr (.inl hstop)
    · exact .inr (.inr (.inl hreport))
    · exact .inr (.inr (.inr (hreplaced.since hnext)))
  added c hc := (h.added c hc).imp_right (Nat.le_trans hnext)

namespace Delivery

theorem Calls.congr {sys sys' : System} {top : Option Frame} {t : Session} {c : Call}
    {below : List Frame} (h : Calls sys top t c below)
    (hactors : ∀ s, sys'.actor s = sys.actor s) : Calls sys' top t c below := by
  cases h with
  | outside => exact .outside t c
  | send => exact .send
  | start h => exact .start (by rwa [hactors])
  | stop => exact .stop
  | stopAll => exact .stopAll
  | tell hparent => exact .tell (by rwa [hactors])
  | script => exact .script
  | fire => exact .fire

/-! ## Single actors -/

/-- What a move of the frame on top does to an actor. -/
inductive Evolves (sys sys' : System) (top : Option Frame) (xs : List Frame) (t : Session)
    (b b' : Actor) : Prop
  /-- The actor has the same snapshot, and its mailbox goes on. -/
  | kept (hmailbox : b.mailbox.Continues b'.mailbox) (hsnapshot : b'.snapshot = b.snapshot)
  /-- The actor has been told to start. -/
  | started {below : List Frame} (hcalls : Calls sys top t .start below)
      (hnew : b.status = .notStarted) (hrunning : b'.status = .running)
      (hsnapshot : b'.snapshot = b.snapshot)
  /-- The actor is going to be closed before it has started. -/
  | dismissed (hnew : b.status = .notStarted) (hmailbox : b'.mailbox = b.mailbox)
      (hsnapshot : b'.snapshot = b.snapshot.stopped) (hhalt : .halt t ∈ xs)
  | closed (htop : top = some (.halt t)) (hstatus : b'.status = .stopped)
      (hsnapshot : b'.snapshot = b.snapshot) (hstop : .stopAll b.snapshot.sessions ∈ xs)
  /-- The actor has taken the stop signal. -/
  | ended {effects : List Effect} {m : Mailbox} {event : Event} (htop : top = some (.drain t))
      (hrunning : b.status = .running) (hnext : b.mailbox.next = (m, some event))
      (hname : event.name = Event.stopName) (hstatus : b'.status = .stopped)
      (hlineage : Lineage sys sys' t effects none b.snapshot.children b'.snapshot.children)
      (heffects : .effects t effects ∈ xs) (hhalt : .halt t ∈ xs)
      (hfinal : b'.snapshot.status = .stopped)
  | reacted {effects : List Effect} {m : Mailbox} {event : Event} (htop : top = some (.drain t))
      (hrunning : b.status = .running) (hnext : b.mailbox.next = (m, some event))
      (hmailbox : b.mailbox.Continues b'.mailbox) (hactive : b.snapshot.status = .active)
      (hlineage : Lineage sys sys' t effects (some event) b.snapshot.children b'.snapshot.children)
      (heffects : .effects t effects ∈ xs)
  /-- The actor has been launched, which changes nothing if it is no longer active. -/
  | launched {snapshot : Snapshot} (htop : top = some (.launch t snapshot))
      (hrunning : b.status = .running) (hmailbox : b'.mailbox = b.mailbox)
      (hchildren : b'.snapshot.children = b.snapshot.children)
      (hfinal : b.snapshot.status ≠ .active → b'.snapshot = b.snapshot)

namespace Evolves

variable {sys sys' : System} {top : Option Frame} {xs : List Frame} {t : Session} {b b' : Actor}

/-- Who has stopped stays as it is. -/
theorem stopped (h : Evolves sys sys' top xs t b b') (hstopped : b.status = .stopped) :
    b'.status = .stopped ∧ b'.snapshot = b.snapshot := by
  cases h with
  | kept hmailbox hsnapshot => exact ⟨hmailbox.status.trans hstopped, hsnapshot⟩
  | closed _ hstatus hsnapshot _ => exact ⟨hstatus, hsnapshot⟩
  | started _ hnew | dismissed hnew =>
      rw [hnew] at hstopped
      cases hstopped
  | ended _ hrunning =>
      rw [hrunning] at hstopped
      cases hstopped
  | reacted _ hrunning =>
      rw [hrunning] at hstopped
      cases hstopped
  | launched _ hrunning =>
      rw [hrunning] at hstopped
      cases hstopped

/-- A request to stop is carried out in the end. -/
theorem asksStop (h : Evolves sys sys' top xs t b b') (hasks : b.mailbox.AsksStop) :
    b'.status = .stopped ∨ b'.mailbox.AsksStop := by
  cases h with
  | kept hmailbox _ => exact .inr (hmailbox.stop hasks)
  | started _ hnew =>
      have hrunning : b.status = .running := hasks.1
      rw [hnew] at hrunning
      cases hrunning
  | dismissed _ hmailbox => exact .inr (hmailbox ▸ hasks)
  | closed _ hstatus _ _ => exact .inl hstatus
  | ended _ _ _ _ hstatus => exact .inl hstatus
  | reacted _ _ _ hmailbox => exact .inr (hmailbox.stop hasks)
  | launched _ _ hmailbox => exact .inr (hmailbox ▸ hasks)

/-- An actor stops when it is closed, or when it takes the stop signal. Its children are told to
stop then, unless an exit action puts another actor in the place of one. -/
theorem stops (h : Evolves sys sys' top xs t b b') (hopen : b.status ≠ .stopped)
    (hstopped : b'.status = .stopped) :
    (top = some (.halt t) ∧ .stopAll b.snapshot.sessions ∈ xs) ∨
      ∃ effects, .effects t effects ∈ xs ∧ .halt t ∈ xs ∧
        Lineage sys sys' t effects none b.snapshot.children b'.snapshot.children := by
  have hgone : b'.status ≠ b.status := fun heq => hopen (heq ▸ hstopped)
  cases h with
  | kept hmailbox _ => exact absurd hmailbox.status hgone
  | started _ _ hrunning =>
      rw [hrunning] at hstopped
      cases hstopped
  | dismissed _ hmailbox => exact absurd (congrArg Mailbox.status hmailbox) hgone
  | closed htop _ _ hstop => exact .inl ⟨htop, hstop⟩
  | @ended effects _ _ _ _ _ _ _ hlineage heffects hhalt =>
      exact .inr ⟨effects, heffects, hhalt, hlineage⟩
  | reacted _ _ _ hmailbox => exact absurd hmailbox.status hgone
  | launched _ _ hmailbox => exact absurd (congrArg Mailbox.status hmailbox) hgone

/-- Only who is told to starts. -/
theorem starts (h : Evolves sys sys' top xs t b b') (hnew : b.status = .notStarted)
    (hrunning : b'.status = .running) : ∃ below, Calls sys top t .start below := by
  have hsame : b'.status ≠ b.status := by
    rw [hnew, hrunning]
    nofun
  cases h with
  | kept hmailbox _ => exact absurd hmailbox.status hsame
  | started hcalls => exact ⟨_, hcalls⟩
  | dismissed _ hmailbox => exact absurd (congrArg Mailbox.status hmailbox) hsame
  | closed _ hstatus =>
      rw [hstatus] at hrunning
      cases hrunning
  | ended _ hrunning =>
      rw [hnew] at hrunning
      cases hrunning
  | reacted _ hrunning =>
      rw [hnew] at hrunning
      cases hrunning
  | launched _ hrunning =>
      rw [hnew] at hrunning
      cases hrunning

/-- Who has been opened stays so. -/
theorem opened (h : Evolves sys sys' top xs t b b') (hopened : b.status ≠ .notStarted) :
    b'.status ≠ .notStarted := by
  cases h with
  | kept hmailbox _ => exact fun hnew => hopened (hmailbox.status.symm.trans hnew)
  | started _ hnew => exact absurd hnew hopened
  | dismissed hnew => exact absurd hnew hopened
  | closed _ hstatus => simp [hstatus]
  | ended _ _ _ _ hstatus => simp [hstatus]
  | reacted _ _ _ hmailbox => exact fun hnew => hopened (hmailbox.status.symm.trans hnew)
  | launched _ _ hmailbox =>
      exact fun hnew => hopened ((congrArg Mailbox.status hmailbox).symm.trans hnew)

/-- Children only come and go when an event is taken. -/
theorem children (h : Evolves sys sys' top xs t b b') (hdrain : top ≠ some (.drain t)) :
    b'.snapshot.children = b.snapshot.children := by
  cases h with
  | kept _ hsnapshot | started _ _ _ hsnapshot | closed _ _ hsnapshot => rw [hsnapshot]
  | dismissed _ _ hsnapshot => rw [hsnapshot, Snapshot.children_stopped]
  | ended htop => exact absurd htop hdrain
  | reacted htop => exact absurd htop hdrain
  | launched _ _ _ hchildren _ => exact hchildren

/-- Where children have come or gone, a step of the behaviour accounts for it. -/
theorem lineage (h : Evolves sys sys' top xs t b b') :
    b'.snapshot.children = b.snapshot.children ∨ ∃ effects external, .effects t effects ∈ xs ∧
      Lineage sys sys' t effects external b.snapshot.children b'.snapshot.children ∧
        ∀ event, external = some event →
          top = some (.drain t) ∧ b.mailbox.queue.head? = some event := by
  cases h with
  | ended htop _ _ _ _ hlineage heffects =>
      exact .inr ⟨_, _, heffects, hlineage, fun _ hevent => nomatch hevent⟩
  | @reacted effects m event htop _ hnext _ _ hlineage heffects =>
      refine .inr ⟨_, _, heffects, hlineage, fun _ hevent => ⟨htop, ?_⟩⟩
      rw [(Mailbox.next_some hnext).1, ← hevent]
      rfl
  | kept _ hsnapshot | started _ _ _ hsnapshot | closed _ _ hsnapshot =>
      rw [hsnapshot]
      exact .inl rfl
  | dismissed _ _ hsnapshot =>
      rw [hsnapshot]
      exact .inl (Snapshot.children_stopped _)
  | launched _ _ _ hchildren _ => exact .inl hchildren

end Evolves

/-- What a move does to the actors: those that there are evolve, and others may have been made. -/
structure Evolution (sys : System) (top : Option Frame) (sys' : System) (xs : List Frame) :
    Prop where
  next : sys.nextSession ≤ sys'.nextSession
  actor : ∀ t b, sys.actor? t = some b →
    ∃ b', sys'.actor? t = some b' ∧ b.Becomes b' ∧ Evolves sys sys' top xs t b b'
  made : ∀ t b', sys'.actor? t = some b' → (∃ b, sys.actor? t = some b) ∨ b'.mailbox = {}

section

variable {sys sys₀ sys₁ sys' : System} {top : Option Frame} {rest xs : List Frame} {s : Session}
  {a a' : Actor}

theorem Evolution.same (hactors : ∀ t, sys'.actor? t = sys.actor? t)
    (hnext : sys'.nextSession = sys.nextSession) : Evolution sys top sys' xs where
  next := Nat.le_of_eq hnext.symm
  actor t b hb := ⟨b, (hactors t).trans hb, rfl, .kept (.refl _) rfl⟩
  made t b hb := .inl ⟨b, (hactors t).symm.trans hb⟩

theorem Evolution.quiet (h : sys.Quiet sys') : Evolution sys top sys' xs := .same h.actor? h.next

theorem Evolution.follows (h : Evolution sys top sys' xs) : sys.Follows sys' where
  next := h.next
  actor t b hb := by
    obtain ⟨b', hb', hbecomes, -⟩ := h.actor t b hb
    exact ⟨b', hb', hbecomes⟩

/-- Actors are made. -/
theorem Evolution.grown (h : sys.Grown sys') : Evolution sys top sys' xs where
  next := h.next
  actor t b hb := ⟨b, h.kept t b hb, rfl, .kept (.refl _) rfl⟩
  made t b hb := (h.added t b hb).imp (fun hb => ⟨b, hb⟩) And.right

/-- Only one actor has changed. -/
theorem Evolution.alters (h : sys.Alters s a' sys') (ha : sys.actor? s = some a)
    (hbecomes : a.Becomes a') (hself : Evolves sys sys' top xs s a a') :
    Evolution sys top sys' xs where
  next := h.next
  actor t b hb := by
    by_cases hts : t = s
    · rw [hts, ha] at hb
      cases hb
      exact ⟨a', hts ▸ h.self, hbecomes, hts ▸ hself⟩
    · exact ⟨b, h.kept t b hts hb, rfl, .kept (.refl _) rfl⟩
  made t b hb := by
    by_cases hts : t = s
    · exact .inl ⟨a, hts ▸ ha⟩
    · exact (h.added t b hts hb).imp (fun hb => ⟨b, hb⟩) And.right

/-- The answer to a call. -/
theorem Answered.evolution {t : Session} {c : Call} {below : List Frame}
    (h : Answered sys t c sys' xs) (hsound : sys.Sound) (hcalls : Calls sys top t c below) :
    Evolution sys top sys' (xs ++ below) := by
  have hturned : ∀ {a : Actor} {m m' : Mailbox}, a.mailbox.Turns c m → m.Continues m' →
      Evolves sys sys' top (xs ++ below) t a { a with mailbox := m' } := by
    intro a m m' hturns hcontinues
    rcases hturns.continues with hbefore | ⟨rfl, hnew, hrunning⟩
    · exact .kept (hbefore.trans hcontinues) rfl
    · exact .started hcalls hnew (hcontinues.status.trans hrunning) rfl
  cases h with
  | refused hquiet _ _ => exact .quiet hquiet
  | posted ha hturns _ hputs _ =>
      exact .alters (hputs.alters hsound ha rfl rfl) ha rfl (hturned hturns (.refl _))
  | claimed ha hturns hbegin hputs =>
      exact .alters (hputs.alters hsound ha rfl rfl) ha rfl
        (hturned hturns (Mailbox.continues_beginFlush hbegin))
  | @halted a sys' ha hstatus hputs =>
      have halters : sys.Alters t { a with snapshot := a.snapshot.stopped } sys' :=
        hsound.thrives.alters hputs hsound ha rfl (hsound.suits t a ha).stopped
      exact .alters halters ha rfl (.dismissed hstatus rfl rfl (by simp))

theorem Evolution.since (h : Evolution sys₁ top sys' xs) (hquiet : sys.Quiet sys₁) :
    Evolution sys top sys' xs where
  next := Nat.le_trans (Nat.le_of_eq hquiet.next.symm) h.next
  actor t b hb := by
    obtain ⟨b', hb', hbecomes, hevolves⟩ := h.actor t b ((hquiet.actor? t).trans hb)
    have hnext := Nat.le_of_eq hquiet.next.symm
    refine ⟨b', hb', hbecomes, ?_⟩
    cases hevolves with
    | kept hmailbox hsnapshot => exact .kept hmailbox hsnapshot
    | started hcalls hnew hrunning hsnapshot =>
        exact .started (hcalls.congr fun s => (hquiet.actor s).symm) hnew hrunning hsnapshot
    | dismissed hnew hmailbox hsnapshot hhalt => exact .dismissed hnew hmailbox hsnapshot hhalt
    | closed htop hstatus hsnapshot hstop => exact .closed htop hstatus hsnapshot hstop
    | ended htop hrunning hnext' hname hstatus hlineage heffects hhalt hfinal =>
        exact .ended htop hrunning hnext' hname hstatus (hlineage.since hnext) heffects hhalt hfinal
    | reacted htop hrunning hnext' hmailbox hactive hlineage heffects =>
        exact .reacted htop hrunning hnext' hmailbox hactive (hlineage.since hnext) heffects
    | launched htop hrunning hmailbox hchildren hfinal =>
        exact .launched htop hrunning hmailbox hchildren hfinal
  made t b hb := (h.made t b hb).imp_left fun ⟨b, hb⟩ => ⟨b, (hquiet.actor? t).symm.trans hb⟩

/-- Who works off a mailbox and has taken an event from it runs. -/
theorem Orderly.running {m : Mailbox} {event : Event} (hd : Orderly none sys (.drain s :: rest))
    (ha : sys.actor? s = some a) (hnext : a.mailbox.next = (m, some event)) :
    a.status = .running := by
  have hflushing := (hd.staged (f := .drain s) rfl ha).marked.mp List.mem_cons_self
  obtain ⟨hqueue, -⟩ := Mailbox.next_some hnext
  exact (hd.attended s a ha).kept.running hflushing (by rw [hqueue]; exact List.cons_ne_nil _ _)

section

variable {m m' : Mailbox} {event : Event} {next : Snapshot} {effects : List Effect}
  {failure : Option ActorError}

/-- How a stop changes the children of its actor. -/
theorem Ends.lineage (h : Ends sys₀ { a with mailbox := m } sys₁ next effects) (hsound : sys.Sound)
    (ha : sys.actor? s = some a) (htook : sys.Puts s { a with mailbox := m } sys₀)
    (hputs : sys₁.Puts s { a with mailbox := m', snapshot := next } sys') :
    Lineage sys sys' s effects none a.snapshot.children next.children := by
  have hsound₀ := (htook.alters hsound ha rfl rfl).sound
  obtain ⟨hthrives, -, hlineage⟩ := h.spec hsound₀ htook.self
  have hfollows := hputs.follows (hthrives.grown.kept s _ htook.self) rfl
  exact (hlineage.mono hfollows (List.Subset.refl _)).since (Nat.le_of_eq htook.next.symm)

/-- How an event changes the children of its actor. -/
theorem Reacts.lineage (h : Reacts sys₀ { a with mailbox := m } event sys₁ next effects failure)
    (hsound : sys.Sound) (ha : sys.actor? s = some a)
    (htook : sys.Puts s { a with mailbox := m } sys₀)
    (hputs : sys₁.Puts s { a with mailbox := m', snapshot := next } sys') :
    Lineage sys sys' s effects (some event) a.snapshot.children next.children := by
  have hsound₀ := (htook.alters hsound ha rfl rfl).sound
  obtain ⟨hthrives, -, hlineage⟩ := h.spec hsound₀ htook.self
  have hfollows := hputs.follows (hthrives.grown.kept s _ htook.self) rfl
  exact (hlineage.mono hfollows (List.Subset.refl _)).since (Nat.le_of_eq htook.next.symm)

end

/-- The start of an actor that is no longer active changes nothing. -/
theorem Launches.final {snapshot next : Snapshot} {effects : List Effect}
    {failure : Option ActorError} (h : Launches sys a snapshot sys' next effects failure)
    (hsuits : snapshot.Suits sys (some s) a.logic) (hfinal : snapshot.status ≠ .active) :
    next = snapshot := by
  have hstart : ∀ {scope scope' : Scope} {result},
      a.logic.start scope snapshot = (scope', result) → result = .ok none := by
    intro scope scope' result hstart
    cases hlogic : a.logic with
    | task run =>
        cases snapshot with
        | machine s =>
            rw [hlogic] at hsuits
            exact hsuits.elim
        | value v =>
            have hinactive : ¬v.status = .active := hfinal
            rw [hlogic, Logic.start, if_neg hinactive] at hstart
            cases hstart
            rfl
    | _ =>
        rw [hlogic] at hstart
        cases hstart
        rfl
  cases h with
  | ok h =>
      cases hstart h
      rfl
  | error h => cases hstart h

/-- A move does nothing else to any actor. -/
theorem Moves.evolution (h : Moves sys top sys' xs)
    (hd : Orderly (closing (top.toList ++ rest)) sys (top.toList ++ rest)) :
    Evolution sys top sys' xs := by
  have hsound := hd.system
  cases h with
  | idled _ hquiet | resumed _ hquiet | exhausted hquiet | settled hquiet | done hquiet
  | broken hquiet | reported hquiet | untold hquiet => exact .quiet hquiet
  | interrupted => exact .quiet (.refl sys)
  | grown h => exact .grown h.grown
  | watched _ ha hputs | finished ha hputs =>
      exact .alters (hputs.alters hsound ha rfl rfl) ha rfl (.kept (.refl _) rfl)
  | called hcalls hquiet h =>
      exact (h.evolution (hsound.quiet hquiet) (hcalls.congr hquiet.actor)).since hquiet
  | posted _ ha hputs =>
      exact .alters (hputs.alters hsound ha rfl rfl) ha rfl
        (.kept (Mailbox.continues_enqueue _ _ true) rfl)
  | performed _ h => exact .same h.actor? h.next
  | emptied ha hnext hputs =>
      exact .alters (hputs.alters hsound ha rfl rfl) ha rfl
        (.kept (Mailbox.continues_empty hnext) rfl)
  | passed ha hnext _ hstop _ hputs =>
      exact .alters (hputs.alters hsound ha rfl rfl) ha rfl
        (.kept (Mailbox.continues_take hnext hstop) rfl)
  | begun ha hnext hinit hputs =>
      have hname : _ ≠ Event.stopName := hinit ▸ (by decide : Event.initName ≠ Event.stopName)
      exact .alters (hputs.alters hsound ha rfl rfl) ha rfl
        (.kept (Mailbox.continues_take hnext hname) rfl)
  | stopped ha hnext hname htook hends hputs =>
      refine .alters (hends.alters hsound ha htook hputs) ha rfl ?_
      exact .ended rfl (Orderly.running hd ha hnext) hnext hname rfl
        (hends.lineage hsound ha htook hputs) List.mem_cons_self (by simp) hends.status
  | reacted ha hnext _ hstop hactive htook hreacts hputs =>
      refine .alters (hreacts.alters hsound ha htook hputs) ha rfl ?_
      exact .reacted rfl (Orderly.running hd ha hnext) hnext (Mailbox.continues_take hnext hstop)
        hactive (hreacts.lineage hsound ha htook hputs) List.mem_cons_self
  | @launched s snapshot a sys₁ sys' next effects failure ha hlaunches hputs =>
      have hd : Orderly none sys (.launch s snapshot :: rest) := hd
      -- the snapshot to launch is the one in place, which the frame alone does not say
      have hcurrent := hd.launching ha
      have hrunning := (hd.staged rfl ha).below_launch.2.2
      have hsuits := hcurrent ▸ hsound.suits s a ha
      obtain ⟨-, -, hchildren⟩ := hlaunches.spec hsound hsuits
      refine .alters (hlaunches.alters hsound ha hcurrent hputs) ha rfl ?_
      exact .launched rfl hrunning rfl (hchildren.trans (by rw [hcurrent])) fun hfinal =>
        (hlaunches.final hsuits (hcurrent ▸ hfinal)).trans hcurrent
  | halted ha hputs =>
      exact .alters (hputs.alters hsound ha rfl rfl) ha rfl (.closed rfl rfl rfl (by simp))
  | retired hactors hnext => exact .same hactors hnext

end

end Delivery

end Statechart
