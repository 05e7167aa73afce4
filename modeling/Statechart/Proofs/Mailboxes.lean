import Mathlib.Data.List.Basic
import Statechart.Actor.Mailbox

/-!
# Mailboxes as queues

The journal of a mailbox accounts for its status and its queue (`replay`). From one request to stop
or close to the next, what is taken and what then waits is what waited and what was accepted, in
order (`replay_running`); `InOrder` says so of a whole journal. `Mailbox.Kept` is what holds of a
mailbox whenever no call is just about to work it off.
-/

namespace Statechart

/-! ## Logs -/

namespace Posting

/-- The event that was queued at the end, if one was. -/
def accepted? : Posting → Option Event
  | .accepted event => some event
  | _ => none

/-- The event that was taken, if one was. -/
def taken? : Posting → Option Event
  | .taken event => some event
  | _ => none

/-- All that was queued was lost. -/
def Cuts (p : Posting) : Prop := p = .stopAsked ∨ p = .closed

/-- Status and queue after one thing has happened, if it can happen. -/
def turn? : Posting → ActorStatus × List Event → Option (ActorStatus × List Event)
  | .accepted event, (status, queue) =>
      if status = .stopped then none else some (status, queue ++ [event])
  | .started, (.notStarted, queue) => some (.running, Mailbox.initSignal :: queue)
  | .taken event, (.running, first :: rest) =>
      if first = event then some (.running, rest) else none
  | .stopAsked, (.running, _) => some (.running, [Mailbox.stopSignal])
  | .closed, _ => some (.stopped, [])
  | _, _ => none

end Posting

/-- The events that were queued at the end, in order. -/
def acceptedIn (log : List Posting) : List Event := log.filterMap Posting.accepted?

/-- The events that were taken, in order. -/
def takenIn (log : List Posting) : List Event := log.filterMap Posting.taken?

/-- Status and queue after all that a log says, if that can happen. -/
def replay : List Posting → ActorStatus × List Event → Option (ActorStatus × List Event)
  | [], now => some now
  | p :: rest, now => (p.turn? now).bind (replay rest)

theorem replay_append (log more : List Posting) (now : ActorStatus × List Event) :
    replay (log ++ more) now = (replay log now).bind (replay more) := by
  induction log generalizing now with
  | nil => rfl
  | cons p rest ih =>
      rw [List.cons_append, replay, replay, Option.bind_assoc]
      exact Option.bind_congr fun now' _ => ih now'

/-- What can happen next extends a log. -/
theorem replay_concat {log : List Posting} {first now : ActorStatus × List Event} {p : Posting}
    (h : replay log first = some now) : replay (log ++ [p]) first = p.turn? now := by
  rw [replay_append, h]
  show (p.turn? now).bind some = p.turn? now
  exact Option.bind_fun_some _

section

variable {log : List Posting} {status status' : ActorStatus} {queue queue' : List Event}

/-- After a close nothing happens. -/
theorem replay_stopped (h : replay log (.stopped, []) = some (status, queue)) :
    status = .stopped ∧ queue = [] ∧ ∀ p ∈ log, p = .closed := by
  induction log with
  | nil =>
      cases h
      exact ⟨rfl, rfl, by simp⟩
  | cons p rest ih =>
      obtain ⟨now, hfirst, hrest⟩ := Option.bind_eq_some_iff.mp h
      cases p with
      | closed =>
          cases hfirst
          obtain ⟨hstatus, hqueue, hall⟩ := ih hrest
          exact ⟨hstatus, hqueue, List.forall_mem_cons.mpr ⟨rfl, hall⟩⟩
      | _ => cases hfirst

/-- While an actor runs, events are taken in the order in which they came. -/
theorem replay_running (hcut : ∀ p ∈ log, ¬p.Cuts)
    (h : replay log (.running, queue) = some (status, queue')) :
    status = .running ∧ takenIn log ++ queue' = queue ++ acceptedIn log := by
  induction log generalizing queue with
  | nil =>
      cases h
      exact ⟨rfl, (List.append_nil _).symm⟩
  | cons p rest ih =>
      obtain ⟨hp, hcuts⟩ := List.forall_mem_cons.mp hcut
      obtain ⟨now, hfirst, hrest⟩ := Option.bind_eq_some_iff.mp h
      cases p with
      | accepted event =>
          cases hfirst
          obtain ⟨hstatus, hflow⟩ := ih hcuts hrest
          refine ⟨hstatus, ?_⟩
          show takenIn rest ++ queue' = queue ++ event :: acceptedIn rest
          rw [hflow, List.append_assoc, List.singleton_append]
      | started => cases hfirst
      | taken event =>
          cases queue with
          | nil => cases hfirst
          | cons first waiting =>
              obtain ⟨rfl, hnow⟩ := Option.ite_none_right_eq_some.mp hfirst
              cases hnow
              obtain ⟨hstatus, hflow⟩ := ih hcuts hrest
              refine ⟨hstatus, ?_⟩
              show first :: (takenIn rest ++ queue') = first :: (waiting ++ acceptedIn rest)
              rw [hflow]
      | stopAsked => exact absurd (.inl rfl) hp
      | closed => exact absurd (.inr rfl) hp

/-- Before the start events are kept; from then on the init signal goes first. -/
theorem replay_notStarted (hcut : ∀ p ∈ log, ¬p.Cuts)
    (h : replay log (.notStarted, queue) = some (status, queue')) :
    (status = .notStarted ∧ .started ∉ log ∧ takenIn log = [] ∧ queue' = queue ++ acceptedIn log) ∨
      (status = .running ∧ .started ∈ log ∧
        takenIn log ++ queue' = Mailbox.initSignal :: (queue ++ acceptedIn log)) := by
  induction log generalizing queue with
  | nil =>
      cases h
      exact .inl ⟨rfl, List.not_mem_nil, rfl, (List.append_nil _).symm⟩
  | cons p rest ih =>
      obtain ⟨hp, hcuts⟩ := List.forall_mem_cons.mp hcut
      obtain ⟨now, hfirst, hrest⟩ := Option.bind_eq_some_iff.mp h
      cases p with
      | accepted event =>
          cases hfirst
          have hcons : queue ++ [event] ++ acceptedIn rest = queue ++ event :: acceptedIn rest := by
            rw [List.append_assoc, List.singleton_append]
          rcases ih hcuts hrest with ⟨hstatus, hnot, htaken, hqueue⟩ | ⟨hstatus, hmem, hflow⟩
          · refine .inl ⟨hstatus, by simpa using hnot, htaken, ?_⟩
            rw [hqueue, hcons]
            rfl
          · refine .inr ⟨hstatus, List.mem_cons_of_mem _ hmem, ?_⟩
            show takenIn rest ++ queue' = _
            rw [hflow, hcons]
            rfl
      -- from here on the mailbox is that of a running actor
      | started =>
          cases hfirst
          obtain ⟨hstatus, hflow⟩ := replay_running hcuts hrest
          exact .inr ⟨hstatus, List.mem_cons_self, hflow⟩
      | taken event => cases hfirst
      | stopAsked => exact absurd (.inl rfl) hp
      | closed => exact absurd (.inr rfl) hp

/-- What can happen to a queue. -/
theorem Posting.turn?_cases {p : Posting} {now : ActorStatus × List Event}
    (h : p.turn? (status, queue) = some now) :
    (∃ event, p = .accepted event ∧ status ≠ .stopped ∧ now = (status, queue ++ [event])) ∨
      (p = .started ∧ status = .notStarted ∧ now.1 = .running) ∨
      (∃ event, p = .taken event ∧ now.1 = .running) ∨
      (p = .stopAsked ∧ now.1 = .running) ∨ (p = .closed ∧ now = (.stopped, [])) := by
  cases p with
  | accepted event =>
      obtain ⟨hopen, hnow⟩ := Option.ite_none_left_eq_some.mp h
      cases hnow
      exact .inl ⟨event, rfl, hopen, rfl⟩
  | started =>
      cases status <;> cases h
      exact .inr (.inl ⟨rfl, rfl, rfl⟩)
  | taken event =>
      cases status with
      | running =>
          cases queue with
          | nil => cases h
          | cons first rest =>
              obtain ⟨-, hnow⟩ := Option.ite_none_right_eq_some.mp h
              cases hnow
              exact .inr (.inr (.inl ⟨event, rfl, rfl⟩))
      | notStarted => cases h
      | stopped => cases h
  | stopAsked =>
      cases status <;> cases h
      exact .inr (.inr (.inr (.inl ⟨rfl, rfl⟩)))
  | closed =>
      cases h
      exact .inr (.inr (.inr (.inr ⟨rfl, rfl⟩)))

/-- Only an actor that has not started is started. -/
theorem Posting.turn?_opened {p : Posting} {now : ActorStatus × List Event}
    (hopened : status ≠ .notStarted) (h : p.turn? (status, queue) = some now) :
    now.1 ≠ .notStarted ∧ p ≠ .started := by
  rcases turn?_cases h with ⟨event, rfl, -, rfl⟩ | ⟨-, hstatus, -⟩ | ⟨event, rfl, hnow⟩ |
    ⟨rfl, hnow⟩ | ⟨rfl, rfl⟩
  · exact ⟨hopened, nofun⟩
  · exact absurd hstatus hopened
  · exact ⟨by rw [hnow]; nofun, nofun⟩
  · exact ⟨by rw [hnow]; nofun, nofun⟩
  · exact ⟨nofun, nofun⟩

/-- Nothing waits for an actor that has stopped. -/
theorem Posting.turn?_stopped {p : Posting} {now : ActorStatus × List Event}
    (h : p.turn? (status, queue) = some now) (hstopped : now.1 = .stopped) : now.2 = [] := by
  rcases turn?_cases h with ⟨event, rfl, hopen, rfl⟩ | ⟨-, -, hnow⟩ | ⟨event, -, hnow⟩ |
    ⟨-, hnow⟩ | ⟨-, rfl⟩
  · exact absurd hstopped hopen
  · rw [hnow] at hstopped
    cases hstopped
  · rw [hnow] at hstopped
    cases hstopped
  · rw [hnow] at hstopped
    cases hstopped
  · rfl

/-- An actor is not started again. -/
theorem replay_opened {now : ActorStatus × List Event} (hopened : status ≠ .notStarted)
    (h : replay log (status, queue) = some now) : now.1 ≠ .notStarted ∧ .started ∉ log := by
  induction log generalizing status queue with
  | nil =>
      cases h
      exact ⟨hopened, List.not_mem_nil⟩
  | cons p rest ih =>
      obtain ⟨next, hfirst, hrest⟩ := Option.bind_eq_some_iff.mp h
      obtain ⟨hnext, hp⟩ := Posting.turn?_opened hopened hfirst
      obtain ⟨hnow, hnot⟩ := ih hnext hrest
      refine ⟨hnow, fun hmem => ?_⟩
      rcases List.mem_cons.mp hmem with heq | hmem
      · exact hp heq.symm
      · exact hnot hmem

/-- What can happen after a start. -/
theorem replay_started (h : replay (.started :: log) (status, queue) = some (status', queue')) :
    status = .notStarted ∧ status' ≠ .notStarted ∧ .started ∉ log := by
  obtain ⟨now, hstarted, hrest⟩ := Option.bind_eq_some_iff.mp h
  cases status with
  | notStarted =>
      cases hstarted
      have hopened : ActorStatus.running ≠ .notStarted := nofun
      exact ⟨rfl, replay_opened hopened hrest⟩
  | running => cases hstarted
  | stopped => cases hstarted

theorem replay_emptied {now : ActorStatus × List Event} (hqueue : status = .stopped → queue = [])
    (h : replay log (status, queue) = some now) (hstopped : now.1 = .stopped) : now.2 = [] := by
  induction log generalizing status queue with
  | nil =>
      cases h
      exact hqueue hstopped
  | cons p rest ih =>
      obtain ⟨next, hfirst, hrest⟩ := Option.bind_eq_some_iff.mp h
      exact ih (Posting.turn?_stopped hfirst) hrest

end

/-! ## Mailboxes -/

namespace Mailbox

/-- What has happened to the queue, in order. -/
def log (m : Mailbox) : List Posting := m.journal.reverse

/-- Events are taken in the order in which they come, and none is passed over. -/
structure InOrder (m : Mailbox) : Prop where
  /-- Nothing is taken before the start. Then the init signal goes first, and after it everything
  that is accepted, before the start or later. -/
  opening : ∀ log more, m.log = log ++ more → (∀ p ∈ log, ¬p.Cuts) →
    (.started ∉ log → takenIn log = []) ∧ (.started ∈ log → ∃ waiting,
      takenIn log ++ waiting = initSignal :: acceptedIn log ∧ (more = [] → waiting = m.queue))
  /-- After a request to stop, the stop signal goes first, and what has waited is lost. -/
  stopping : ∀ before log more, m.log = before ++ .stopAsked :: (log ++ more) →
    (∀ p ∈ log, ¬p.Cuts) → ∃ waiting,
      takenIn log ++ waiting = stopSignal :: acceptedIn log ∧ (more = [] → waiting = m.queue)
  /-- After a close nothing is taken or accepted. -/
  closing : ∀ before after, m.log = before ++ .closed :: after →
    takenIn after = [] ∧ acceptedIn after = []
  /-- The init signal is queued at most once. -/
  once : ∀ before after, m.log = before ++ .started :: after → .started ∉ before ∧ .started ∉ after

/-- The log of a mailbox accounts for its status and its queue. -/
def Accounted (m : Mailbox) : Prop := replay m.log (.notStarted, []) = some (m.status, m.queue)

variable {m m' : Mailbox}

theorem log_cons {p : Posting} (h : m'.journal = p :: m.journal) : m'.log = m.log ++ [p] := by
  rw [log, log, h, List.reverse_cons]

/-- Events are taken in order from a mailbox whose log accounts for it. -/
theorem Accounted.inOrder (h : m.Accounted) : m.InOrder := by
  have hsplit : ∀ {log more}, m.log = log ++ more → ∃ now, replay log (.notStarted, []) = some now ∧
      replay more now = some (m.status, m.queue) := by
    intro log more hlog
    unfold Accounted at h
    rw [hlog, replay_append] at h
    exact Option.bind_eq_some_iff.mp h
  -- what waits at the end of the log is the queue
  have hqueue : ∀ {more} {now : ActorStatus × List Event},
      replay more now = some (m.status, m.queue) → more = [] → now.2 = m.queue := by
    intro more now hrest hnil
    rw [hnil] at hrest
    cases hrest
    rfl
  constructor
  case opening =>
    intro log more hlog hcut
    obtain ⟨⟨status, waiting⟩, hreplay, hrest⟩ := hsplit hlog
    rcases replay_notStarted hcut hreplay with ⟨-, hnot, htaken, -⟩ | ⟨-, hmem, hflow⟩
    · exact ⟨fun _ => htaken, fun hmem => absurd hmem hnot⟩
    · exact ⟨fun hnot => absurd hmem hnot, fun _ => ⟨waiting, hflow, hqueue hrest⟩⟩
  case stopping =>
    intro before log more hlog hcut
    obtain ⟨⟨status, queue⟩, -, hrest⟩ := hsplit hlog
    obtain ⟨⟨status', queue'⟩, hasked, hrest⟩ := Option.bind_eq_some_iff.mp hrest
    rw [replay_append] at hrest
    obtain ⟨⟨status'', waiting⟩, hreplay, hmore⟩ := Option.bind_eq_some_iff.mp hrest
    cases status with
    | running =>
        cases hasked
        exact ⟨waiting, (replay_running hcut hreplay).2, hqueue hmore⟩
    | notStarted => cases hasked
    | stopped => cases hasked
  case closing =>
    intro before after hlog
    obtain ⟨now, -, hrest⟩ := hsplit hlog
    obtain ⟨now', hclosed, hrest⟩ := Option.bind_eq_some_iff.mp hrest
    cases hclosed
    obtain ⟨-, -, hall⟩ := replay_stopped hrest
    constructor
    · refine List.filterMap_eq_nil_iff.mpr fun p hp => ?_
      rw [hall p hp]
      rfl
    · refine List.filterMap_eq_nil_iff.mpr fun p hp => ?_
      rw [hall p hp]
      rfl
  case once =>
    intro before after hlog
    obtain ⟨⟨status, queue⟩, hbefore, hrest⟩ := hsplit hlog
    obtain ⟨rfl, -, hafter⟩ := replay_started hrest
    refine ⟨fun hmem => ?_, hafter⟩
    obtain ⟨l, l', rfl⟩ := List.append_of_mem hmem
    rw [replay_append] at hbefore
    obtain ⟨⟨status', queue'⟩, -, hfirst⟩ := Option.bind_eq_some_iff.mp hbefore
    exact (replay_started hfirst).2.1 rfl

/-! ## Working off -/

/-- What a call on its actor may do to a mailbox. -/
inductive Turns (m : Mailbox) : Call → Mailbox → Prop
  | sent (event : Event) (defer : Bool) : Turns m (.send event) (m.enqueue event defer).1
  | started {m' : Mailbox} (h : m.start? = some m') : Turns m .start m'
  | stopAsked (h : m.status = .running) : Turns m .stop m.requestStop

/-- Nothing waits that nobody works off. -/
def Settled (m : Mailbox) : Prop := m.status = .running → m.flushing = false → m.queue = []

/-- What holds of a mailbox whenever no call is just about to work it off. -/
structure Kept (m : Mailbox) : Prop where
  accounted : m.Accounted
  settled : m.Settled
  unopened : m.status = .notStarted → m.flushing = false

theorem kept_new : Kept {} := ⟨rfl, nofun, fun _ => rfl⟩

/-- A log goes on with what can happen next. -/
theorem Accounted.concat (h : m.Accounted) {p : Posting} (hlog : m'.log = m.log ++ [p])
    (hp : p.turn? (m.status, m.queue) = some (m'.status, m'.queue)) : m'.Accounted := by
  rw [Accounted, hlog, replay_concat h, hp]

theorem enqueue_flushing (m : Mailbox) (event : Event) (defer : Bool) :
    (m.enqueue event defer).1.flushing = m.flushing ∧
      (m.enqueue event defer).1.status = m.status := by
  unfold enqueue
  split
  · exact ⟨rfl, rfl⟩
  · split <;> exact ⟨rfl, rfl⟩
  · exact ⟨rfl, rfl⟩

/-- Only an actor that runs is ready to take what it is offered. -/
theorem ready_of_running (h : m.status = .running) (event : Event) (defer : Bool) :
    (m.enqueue event defer).2 = .ready := by
  unfold enqueue
  split
  · rename_i hstatus
    rw [h] at hstatus
    cases hstatus
  · rename_i hstatus
    rw [h] at hstatus
    cases hstatus
  · rfl

theorem Accounted.push (h : m.Accounted) (event : Event) (hopen : m.status ≠ .stopped) :
    (m.push event).Accounted := by
  refine h.concat (log_cons rfl) ?_
  rw [Posting.turn?, if_neg hopen]
  rfl

theorem Accounted.turns (h : m.Accounted) {c : Call} (hturns : m.Turns c m') : m'.Accounted := by
  cases hturns with
  | sent event defer =>
      unfold enqueue
      split
      · exact h
      · rename_i hstatus
        split
        · exact h.push event (by rw [hstatus]; nofun)
        · exact h
      · rename_i hstatus
        exact h.push event (by rw [hstatus]; nofun)
  | started hstart =>
      obtain ⟨hstatus, hm⟩ := Option.ite_none_right_eq_some.mp hstart
      cases hm
      refine h.concat (log_cons rfl) ?_
      rw [hstatus]
      rfl
  | stopAsked hstatus =>
      refine h.concat (log_cons rfl) ?_
      rw [hstatus, requestStop, hstatus]
      rfl

/-- The queue of a mailbox that is worked off is not worked off any less. -/
theorem Turns.flushing {c : Call} (h : m.Turns c m') : m'.flushing = m.flushing := by
  cases h with
  | sent event defer => exact (enqueue_flushing m event defer).1
  | started hstart =>
      obtain ⟨-, hm⟩ := Option.ite_none_right_eq_some.mp hstart
      cases hm
      rfl
  | stopAsked => rfl

/-- The status only changes by a start. -/
theorem Turns.status {c : Call} (h : m.Turns c m') :
    m'.status = m.status ∨ c = .start ∧ m.status = .notStarted ∧ m'.status = .running := by
  cases h with
  | sent event defer => exact .inl (enqueue_flushing m event defer).2
  | started hstart =>
      obtain ⟨hstatus, hm⟩ := Option.ite_none_right_eq_some.mp hstart
      cases hm
      exact .inr ⟨rfl, hstatus, rfl⟩
  | stopAsked => exact .inl rfl

/-- Who runs after a call has not stopped before. -/
theorem Turns.open {c : Call} (h : m.Turns c m') (hrunning : m'.status = .running) :
    m.status ≠ .stopped := by
  rcases h.status with heq | ⟨-, hnew, -⟩
  · rw [← heq, hrunning]
    nofun
  · rw [hnew]
    nofun

theorem Kept.turns (h : m.Kept) {c : Call} (hturns : m.Turns c m') (hsettled : m'.Settled) :
    m'.Kept where
  accounted := h.accounted.turns hturns
  settled := hsettled
  unopened hstatus := by
    rw [hturns.flushing]
    rcases hturns.status with heq | ⟨-, -, hrunning⟩
    · exact h.unopened (heq ▸ hstatus)
    · rw [hrunning] at hstatus
      cases hstatus

theorem Kept.close (h : m.Kept) : m.close.Kept :=
  ⟨h.accounted.concat (log_cons rfl) rfl, nofun, nofun⟩

/-- To offer something to an actor that is at work, or that is not ready, leaves nothing behind. -/
theorem settled_enqueue (event : Event) (defer : Bool)
    (hbusy : m.flushing = true ∨ (m.enqueue event defer).2 ≠ .ready) :
    (m.enqueue event defer).1.Settled := by
  obtain ⟨hflushing, hstatus⟩ := enqueue_flushing m event defer
  intro hrunning hidle
  rw [hstatus] at hrunning
  rw [hflushing] at hidle
  rcases hbusy with hbusy | hready
  · rw [hbusy] at hidle
    cases hidle
  · exact absurd (ready_of_running hrunning event defer) hready

/-- Who finds a mailbox that is not to be worked off leaves nothing behind. -/
theorem settled_of_beginFlush (h : m.beginFlush? = none) : m.Settled := by
  intro hrunning hidle
  rw [beginFlush?, hrunning, hidle] at h
  cases h

theorem running_of_beginFlush (h : m.beginFlush? = some m') : m.status = .running := by
  obtain ⟨hfree, -⟩ := Option.ite_none_left_eq_some.mp h
  rw [Bool.or_eq_true, not_or, bne_iff_ne, ne_eq, not_not] at hfree
  exact hfree.2

/-- To claim a mailbox takes nothing from it. -/
theorem Kept.claim (h : m.Kept) {c : Call} (hturns : m.Turns c m') {m'' : Mailbox}
    (hbegin : m'.beginFlush? = some m'') :
    m''.Kept ∧ m''.flushing = true ∧ m.flushing = false := by
  obtain ⟨hfree, hm⟩ := Option.ite_none_left_eq_some.mp hbegin
  cases hm
  rw [Bool.or_eq_true, not_or, Bool.not_eq_true, bne_iff_ne, ne_eq, not_not] at hfree
  have haccounted : m'.Accounted := h.accounted.turns hturns
  refine ⟨⟨haccounted, nofun, fun hstatus => ?_⟩, rfl, ?_⟩
  · rw [show m'.status = .notStarted from hstatus] at hfree
    cases hfree.2
  · rw [← hturns.flushing]
    exact hfree.1

/-- Nothing waits for an actor that has stopped. -/
theorem Kept.emptied (h : m.Kept) (hstopped : m.status = .stopped) : m.queue = [] :=
  replay_emptied (fun _ => rfl) h.accounted hstopped

/-- An event is only taken from the mailbox of an actor that runs. -/
theorem Kept.running (h : m.Kept) (hflushing : m.flushing = true) (hqueue : m.queue ≠ []) :
    m.status = .running := by
  cases hstatus : m.status with
  | running => rfl
  | notStarted =>
      rw [h.unopened hstatus] at hflushing
      cases hflushing
  | stopped => exact absurd (h.emptied hstatus) hqueue

theorem next_nil (hqueue : m.queue = []) : m.next = ({ m with flushing := false }, none) := by
  rw [next, hqueue]

theorem next_cons {event : Event} {rest : List Event} (hqueue : m.queue = event :: rest) :
    m.next = ({ m with queue := rest, journal := .taken event :: m.journal }, some event) := by
  rw [next, hqueue]

/-- Either the queue is empty, or its first event is taken. -/
theorem next_eq {event? : Option Event} (h : m.next = (m', event?)) :
    m.queue = [] ∧ event? = none ∧ m' = { m with flushing := false } ∨
      ∃ event, event? = some event ∧ m.queue = event :: m'.queue ∧
        m' = { m with queue := m'.queue, journal := .taken event :: m.journal } := by
  cases hqueue : m.queue with
  | nil =>
      rw [next_nil hqueue] at h
      cases h
      exact .inl ⟨rfl, rfl, by rw [hqueue]⟩
  | cons event rest =>
      rw [next_cons hqueue] at h
      cases h
      exact .inr ⟨event, rfl, rfl, rfl⟩

theorem next_some {event : Event} (h : m.next = (m', some event)) :
    m.queue = event :: m'.queue ∧
      m' = { m with queue := m'.queue, journal := .taken event :: m.journal } := by
  rcases next_eq h with ⟨-, hnone, -⟩ | ⟨_, hsome, htaken⟩
  · cases hnone
  · cases hsome
    exact htaken

theorem next_none (h : m.next = (m', none)) : m.queue = [] ∧ m' = { m with flushing := false } := by
  rcases next_eq h with ⟨hqueue, -, hm⟩ | ⟨_, hsome, -⟩
  · exact ⟨hqueue, hm⟩
  · cases hsome

/-- To take an event does not change the status. -/
theorem next_status {event? : Option Event} (h : m.next = (m', event?)) : m'.status = m.status := by
  rcases next_eq h with ⟨-, -, hm⟩ | ⟨_, -, -, hm⟩ <;> rw [hm]

/-- What waits first is what is taken. -/
theorem next_of_head {event : Event} (h : m.queue.head? = some event) :
    m.next = (m.next.1, some event) := by
  obtain ⟨rest, hqueue⟩ := List.head?_eq_some_iff.mp h
  rw [next_cons hqueue]

/-- What is left when an event has been taken. -/
theorem Kept.take (h : m.Kept) (hflushing : m.flushing = true) {event : Event}
    (hnext : m.next = (m', some event)) :
    m'.Kept ∧ m'.flushing = true ∧ m'.status = .running := by
  obtain ⟨hqueue, hm⟩ := next_some hnext
  have hrunning := h.running hflushing (by rw [hqueue]; exact List.cons_ne_nil _ _)
  have hlog : m'.log = m.log ++ [.taken event] := log_cons (by rw [hm])
  have hstatus : m'.status = .running := by rw [hm]; exact hrunning
  have hflushing' : m'.flushing = true := by rw [hm]; exact hflushing
  refine ⟨⟨h.accounted.concat hlog ?_, fun _ hidle => ?_, fun hnew => ?_⟩, hflushing', hstatus⟩
  · rw [hrunning, hqueue, Posting.turn?, if_pos rfl, hstatus]
  · rw [hflushing'] at hidle
    cases hidle
  · rw [hstatus] at hnew
    cases hnew

/-- When nothing is left, nobody works off the mailbox. -/
theorem Kept.empty (h : m.Kept) (hnext : m.next = (m', none)) : m'.Kept ∧ m'.flushing = false := by
  obtain ⟨hqueue, rfl⟩ := next_none hnext
  exact ⟨⟨h.accounted, fun _ _ => hqueue, fun _ => rfl⟩, rfl⟩

end Mailbox

end Statechart
