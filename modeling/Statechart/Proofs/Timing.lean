import Statechart.Actor.Delivery
import Statechart.Proofs.Making
import Statechart.Proofs.Timers

/-!
# What touches the clock and the timers

Behaviours touch neither the clock nor the timers, whatever they do (`Spawner.Steady`,
`System.carried_steady`). Among the frames of a delivery only three do: the effects of an actor
ask for delayed events and cancel them, and an actor that retires takes its timers along
(`Frame.touch`, `frame_calm`); besides these the frames of `System.advance` let time pass.

Calls also count how deep they are nested. The depth is the number of deliveries that are still to
be ended, and errors are only kept as long as there is one (`Delivery.Calm`). Nothing gives out the
number of an observer a second time (`frame_numbers`).
-/

namespace Statechart

/-! ## Behaviours -/

namespace System

/-- Clock, timers and the state of the calls in progress are the same, and no number of an observer
is given out again. -/
structure Steady (sys sys' : System) : Prop where
  clock : sys'.clock = sys.clock
  scheduler : sys'.scheduler = sys.scheduler
  depth : sys'.depth = sys.depth
  unhandled : sys'.unhandled = sys.unhandled
  numbers : sys.nextObserver ≤ sys'.nextObserver

variable {sys sys' sys'' : System}

theorem Steady.refl (sys : System) : sys.Steady sys := ⟨rfl, rfl, rfl, rfl, Nat.le_refl _⟩

theorem Steady.trans (h : sys.Steady sys') (h' : sys'.Steady sys'') : sys.Steady sys'' :=
  ⟨h'.clock.trans h.clock, h'.scheduler.trans h.scheduler, h'.depth.trans h.depth,
    h'.unhandled.trans h.unhandled, Nat.le_trans h.numbers h'.numbers⟩

theorem Steady.noted {n : Notice} (h : sys.Steady sys') : sys.Steady (sys'.note n) :=
  ⟨h.clock, h.scheduler, h.depth, h.unhandled, h.numbers⟩

theorem steady_modify (sys : System) (s : Session) (f : Actor → Actor) :
    sys.Steady (sys.modify s f) := by
  unfold modify
  split <;> exact ⟨rfl, rfl, rfl, rfl, Nat.le_refl _⟩

theorem steady_setMailbox (sys : System) (s : Session) (mailbox : Mailbox) :
    sys.Steady (sys.setMailbox s mailbox) := steady_modify _ _ _

theorem steady_register (sys : System) (a : Actor) : sys.Steady (sys.register a) := by
  unfold register
  split
  · exact ⟨rfl, rfl, rfl, rfl, Nat.le_refl _⟩
  · simp only
    split <;> exact ⟨rfl, rfl, rfl, rfl, Nat.le_refl _⟩

theorem steady_unregister (sys : System) (s : Session) (systemId : Option String) :
    sys.Steady (sys.unregister s systemId) := by
  unfold unregister
  split
  · exact ⟨rfl, rfl, rfl, rfl, Nat.le_refl _⟩
  · simp only
    split <;> exact ⟨rfl, rfl, rfl, rfl, Nat.le_refl _⟩

/-- Nothing that behaviours do to a system touches any of this. -/
theorem carried_steady : Carried Steady where
  refl := .refl
  trans := .trans
  pins _ _ := ⟨rfl, rfl, rfl, rfl, Nat.le_refl _⟩
  record _ _ := ⟨rfl, rfl, rfl, rfl, Nat.le_refl _⟩
  newSession _ := ⟨rfl, rfl, rfl, rfl, Nat.le_refl _⟩
  register := steady_register

end System

open Statechart.System (Steady carried_steady)

/-- A way to make actors that leaves the clock and the timers alone. -/
def Spawner.Steady (spawn : Spawner) : Prop :=
  ∀ (sys : System) (logic : Logic) (spec : ActorSpec), sys.Steady (spawn sys logic spec).1

theorem steady_spawn : Spawner.Steady spawn := spawn_carries carried_steady

/-! ## Frames -/

/-- Whether a frame neither ends a delivery nor lets time pass. -/
def Frame.still : Frame → Bool
  | .leave => false
  | .fire _ _ => false
  | .arrive _ => false
  | _ => true

/-- Whether a frame does not let time pass. -/
def Frame.inner : Frame → Bool
  | .fire _ _ => false
  | .arrive _ => false
  | _ => true

def Frame.isLeave : Frame → Bool
  | .leave => true
  | _ => false

/-- What a frame does to the timers before all else. -/
def Frame.touch (sys : System) : Frame → System
  | .effects s (.send target event (some ms) id :: _) => sys.schedule s id ms target event
  | .effects s (.cancel id :: _) => sys.cancel s id
  | .retire s => sys.cancelOwner s
  | _ => sys

namespace Delivery

/-- How many deliveries are still to be ended. -/
def leaves (frames : List Frame) : Nat := frames.countP Frame.isLeave

/-- What comes of a frame or a call that leaves the clock and the timers alone. -/
structure Calm (sys : System) (x : Delivery) : Prop where
  clock : x.system.clock = sys.clock
  scheduler : x.system.scheduler = sys.scheduler
  depth : x.system.depth = sys.depth + leaves x.frames
  unhandled : sys.depth = 0 → x.system.unhandled = sys.unhandled
  numbers : sys.nextObserver ≤ x.system.nextObserver
  inner : x.frames.all Frame.inner = true

variable {sys sys' : System} {x : Delivery} {frames : List Frame}

theorem leaves_append (frames frames' : List Frame) :
    leaves (frames ++ frames') = leaves frames + leaves frames' := List.countP_append

theorem leaves_of_still (h : frames.all Frame.still = true) :
    leaves frames = 0 ∧ frames.all Frame.inner = true := by
  rw [List.all_eq_true] at h
  have hstill : ∀ f : Frame, f.still = true → ¬ f.isLeave = true ∧ f.inner = true := by
    intro f
    cases f <;> simp [Frame.still, Frame.isLeave, Frame.inner]
  exact ⟨List.countP_eq_zero.mpr fun f hf => (hstill f (h f hf)).1,
    List.all_eq_true.mpr fun f hf => (hstill f (h f hf)).2⟩

/-- Frames that neither end a delivery nor let time pass. -/
theorem Steady.calm {answer : Except ActorError Unit} (h : sys.Steady sys')
    (hframes : frames.all Frame.still = true) : Calm sys { system := sys', frames, answer } where
  clock := h.clock
  scheduler := h.scheduler
  depth := by
    have hnone : leaves frames = 0 := (leaves_of_still hframes).1
    rw [hnone]
    exact h.depth
  unhandled _ := h.unhandled
  numbers := h.numbers
  inner := (leaves_of_still hframes).2

theorem calm_done (sys : System) : Calm sys (done sys) := Steady.calm (.refl _) rfl

theorem Calm.after (h : Calm sys' x) (hsteady : sys.Steady sys') : Calm sys x where
  clock := h.clock.trans hsteady.clock
  scheduler := h.scheduler.trans hsteady.scheduler
  depth := by rw [h.depth, hsteady.depth]
  unhandled hzero := (h.unhandled (hsteady.depth.trans hzero)).trans hsteady.unhandled
  numbers := Nat.le_trans hsteady.numbers h.numbers
  inner := h.inner

theorem Calm.before (h : Calm sys x) (hframes : frames.all Frame.still = true) :
    Calm sys (x.before frames) where
  clock := h.clock
  scheduler := h.scheduler
  depth := by
    have hleaves := leaves_append x.frames frames
    rw [(leaves_of_still hframes).1] at hleaves
    exact h.depth.trans (congrArg (sys.depth + ·) hleaves.symm)
  unhandled := h.unhandled
  numbers := h.numbers
  inner := by
    rw [Delivery.before, List.all_append, h.inner, (leaves_of_still hframes).2]
    rfl

/-! ### Calls -/

theorem calm_flush (sys : System) (s : Session) : Calm sys (flush sys s) := by
  unfold flush
  simp only
  split
  · rename_i mailbox _
    have hsteady := System.steady_setMailbox sys.enter s mailbox
    exact ⟨hsteady.clock, hsteady.scheduler, hsteady.depth, fun _ => hsteady.unhandled,
      hsteady.numbers, rfl⟩
  · exact ⟨rfl, rfl, rfl, fun _ => rfl, Nat.le_refl _, rfl⟩

theorem calm_send (sys : System) (s : Session) (event : Event) : Calm sys (send sys s event) := by
  -- Whatever becomes of the mailbox, neither the clock nor the delivery in progress is touched.
  have hput : ∀ mailbox, sys.Steady (checkMailbox (sys.setMailbox s mailbox) s) := by
    intro mailbox
    refine (System.steady_setMailbox sys s mailbox).trans ?_
    unfold checkMailbox
    simp only
    split <;> exact ⟨rfl, rfl, rfl, rfl, Nat.le_refl _⟩
  unfold send
  simp only
  split
  · exact Steady.calm (.refl _) rfl
  · split
    · exact (calm_flush _ s).after (hput _)
    · exact Steady.calm (hput _) rfl
    · split
      · exact Steady.calm (hput _).noted rfl
      · exact Steady.calm (hput _) rfl
    · exact Steady.calm (hput _) rfl

theorem calm_start (sys : System) (s : Session) : Calm sys (start sys s) := by
  unfold start
  simp only
  split
  · exact calm_done _
  · rename_i mailbox _
    exact (calm_flush _ s).after (System.steady_setMailbox sys s mailbox).noted

theorem calm_stop (sys : System) (s : Session) : Calm sys (stop sys s) := by
  unfold stop
  split
  · exact calm_done _
  · split
    · exact (calm_flush _ s).after (System.steady_setMailbox sys s _)
    · exact Steady.calm (System.steady_modify sys s _) rfl
    · exact calm_done _

theorem calm_call (sys : System) (s : Session) (c : Call) : Calm sys (call sys s c) := by
  cases c with
  | start => exact calm_start sys s
  | stop => exact calm_stop sys s
  | send event => exact calm_send sys s event

/-! ### Processing an event -/

theorem calm_commit (sys : System) (s : Session) (next : Snapshot) (effects : List Effect)
    (failure : Option ActorError) : Calm sys (commit sys s next effects failure) :=
  Steady.calm (System.steady_modify sys s _) rfl

theorem calm_handleInit (sys : System) (s : Session) : Calm sys (handleInit sys s) :=
  Steady.calm (System.steady_modify sys s _) rfl

theorem calm_handleStop (sys : System) (s : Session) : Calm sys (handleStop sys s) := by
  have hstop := Logic.stop_carries carried_steady steady_spawn (scopeOf sys (sys.actor s))
    (sys.actor s).snapshot (sys.actor s).logic
  unfold handleStop
  simp only
  refine Steady.calm (Steady.trans ?_ (System.steady_modify _ s _)) rfl
  split
  · exact hstop
  · exact hstop.noted

theorem calm_handleEvent (sys : System) (s : Session) (event : Event) :
    Calm sys (handleEvent sys s event) := by
  have hstep := Logic.transition_carries carried_steady steady_spawn (scopeOf sys (sys.actor s))
    (sys.actor s).snapshot event (sys.actor s).logic
  unfold handleEvent
  simp only
  split
  · split
    · exact ((calm_commit _ s _ _ _).after hstep).before rfl
    · exact ((calm_commit _ s _ _ _).after hstep).before rfl
  · exact calm_done _

theorem calm_process (sys : System) (s : Session) (event : Event) :
    Calm sys (process sys s event) := by
  unfold process
  split
  · exact calm_handleInit sys s
  · split
    · exact calm_handleStop sys s
    · exact calm_handleEvent sys s event

theorem calm_launch (sys : System) (s : Session) (snapshot : Snapshot) :
    Calm sys (launch sys s snapshot) := by
  have hstart := Logic.start_carries carried_steady (scopeOf sys (sys.actor s)) snapshot
    (sys.actor s).logic
  unfold launch
  simp only
  split <;> exact (calm_commit _ s _ _ _).after hstart

/-! ### Effects -/

theorem calm_deliver (sys : System) (s : Session) (recipient : Destination) (event : Event) :
    Calm sys (deliver sys s recipient event) := by
  unfold deliver
  split
  · exact calm_send _ _ _
  · split
    · exact calm_send _ _ _
    · exact Steady.calm (.refl _) rfl

/-- An error is only kept by a delivery in progress. -/
theorem calm_recordUnhandled (sys : System) (e : ActorError) :
    Calm sys (done (sys.recordUnhandled e)) := by
  unfold System.recordUnhandled
  split <;> rename_i hdepth
  · exact ⟨rfl, rfl, rfl, fun _ => rfl, Nat.le_refl _, rfl⟩
  · exact ⟨rfl, rfl, rfl, fun hzero => absurd hzero hdepth, Nat.le_refl _, rfl⟩

theorem calm_afterSend (sys : System) (s : Session) (answer : Except ActorError Unit) :
    Calm sys (done (afterSend sys s answer)) := by
  unfold afterSend
  split
  · exact calm_done _
  · split
    · exact calm_recordUnhandled _ _
    · exact Steady.calm (System.steady_setMailbox sys s _) rfl

theorem calm_effect (sys : System) (s : Session) (e : Effect) (rest : List Effect) :
    Calm ((Frame.effects s (e :: rest)).touch sys) (effect sys s e) := by
  cases e with
  | send recipient event delay id =>
      cases delay with
      | none => exact (calm_deliver sys s recipient event).before rfl
      | some ms => exact calm_done _
  | start child =>
      simp only [effect]
      split
      · exact calm_start sys child
      · exact calm_done _
  | stop child => exact calm_stop sys child
  | cancel id => exact calm_done _
  | log label value => exact Steady.calm ⟨rfl, rfl, rfl, rfl, Nat.le_refl _⟩ rfl
  | exec name args run => exact Steady.calm (.refl _) rfl

/-! ### Winding up, observers and scripts -/

theorem calm_settle (sys : System) (s : Session) (snapshot : Snapshot)
    (failure : Option ActorError) : Calm sys (settle sys s snapshot failure) := by
  unfold settle
  simp only
  split <;> exact Steady.calm ⟨rfl, rfl, rfl, rfl, Nat.le_refl _⟩ rfl

theorem calm_failed (sys : System) (s : Session) (snapshot : Snapshot)
    (failure : Option ActorError) : Calm sys (failed sys s snapshot failure) := by
  unfold failed
  simp only
  split
  · split
    · refine Calm.before ((calm_recordUnhandled _ _).after ?_) rfl
      exact ⟨rfl, rfl, rfl, rfl, Nat.le_refl _⟩
    · exact Steady.calm (.refl _) rfl
  · exact Steady.calm (.refl _) rfl

theorem calm_retire (sys : System) (s : Session) :
    Calm (sys.cancelOwner s) (done (retire sys s)) := by
  have hsteady := System.steady_unregister (sys.cancelOwner s) s (sys.actor s).systemId
  exact Steady.calm ⟨hsteady.clock, hsteady.scheduler, hsteady.depth, hsteady.unhandled,
    hsteady.numbers⟩ rfl

theorem calm_tellParent (sys : System) (s : Session) (event : Event) :
    Calm sys (tellParent sys s event) := by
  unfold tellParent
  split
  · exact calm_send _ _ _
  · exact calm_done _

theorem calm_notifyOne (sys : System) (number : Nat) (o : Observer) (what : Notification) :
    Calm sys (notifyOne sys number o what) := by
  unfold notifyOne
  simp only
  split <;> cases what <;> exact Steady.calm ⟨rfl, rfl, rfl, rfl, Nat.le_refl _⟩ rfl

theorem calm_script (sys : System) (owner : Option Session)
    (body : Script (Except ActionError Unit)) : Calm sys (script sys owner body) := by
  unfold script
  split
  · exact calm_done _
  · split
    · exact Steady.calm (System.steady_setMailbox sys _ _) rfl
    · exact calm_done _
  · exact Steady.calm ⟨rfl, rfl, rfl, rfl, Nat.le_refl _⟩ rfl
  · split
    · exact Steady.calm (.refl _) rfl
    · exact (calm_call sys _ _).before rfl

theorem calm_fireTimer (sys : System) (timer : Timer) : Calm sys (fireTimer sys timer) := by
  unfold fireTimer
  simp only
  split
  · exact (calm_send _ _ _).before rfl
  · exact calm_done _

theorem calm_afterFire (sys : System) (s : Session) (answer : Except ActorError Unit) :
    Calm sys (done (afterFire sys s answer)) := by
  unfold afterFire
  split <;> exact Steady.calm ⟨rfl, rfl, rfl, rfl, Nat.le_refl _⟩ rfl

/-- The clock and the scheduler when a timer has been taken. -/
def struck (sys : System) (moving : Bool) (timer : Timer) (scheduler : Scheduler) : System :=
  if moving then { sys with scheduler }.setNow (max sys.clock.now timer.due)
  else { sys with scheduler }

theorem fire_none {time : Nat} {moving : Bool} (hpop : sys.scheduler.popDue? time = none) :
    fire sys time moving = done sys := by
  unfold fire
  rw [hpop]

theorem fire_some {time : Nat} {moving : Bool} {timer : Timer} {scheduler : Scheduler}
    (hpop : sys.scheduler.popDue? time = some (timer, scheduler)) :
    fire sys time moving =
      (fireTimer (struck sys moving timer scheduler) timer).before [.fire time moving] := by
  unfold fire
  rw [hpop]
  cases moving <;> rfl

/-- All that a frame does to the clock and the timers is what `Frame.touch` says, unless it lets
time pass. -/
theorem frame_calm (sys : System) (answer : Except ActorError Unit) {f : Frame}
    (hf : f.still = true) : Calm (f.touch sys) (frame sys answer f) := by
  cases f with
  | drain s =>
      unfold frame
      simp only
      split
      · exact Steady.calm (System.steady_setMailbox sys s _) rfl
      · exact ((calm_process _ s _).after (System.steady_setMailbox sys s _)).before rfl
  | effects s effects =>
      cases effects with
      | nil => exact calm_done _
      | cons e rest => exact (calm_effect sys s e rest).before rfl
  | delivered s => exact calm_afterSend sys s answer
  | launch s snapshot => exact calm_launch sys s snapshot
  | notify observers what =>
      cases observers with
      | nil => exact calm_done _
      | cons o rest => exact (calm_notifyOne sys o.1 o.2 what).before rfl
  | settle s snapshot failure => exact calm_settle sys s snapshot failure
  | failed s snapshot failure => exact calm_failed sys s snapshot failure
  | halt s => exact Steady.calm (System.steady_setMailbox sys s _) rfl
  | stopAll sessions =>
      cases sessions with
      | nil => exact calm_done _
      | cons s rest => exact (calm_stop sys s).before rfl
  | retire s => exact calm_retire sys s
  | finish s => exact Steady.calm (System.steady_modify sys s _) rfl
  | tellParent s event => exact calm_tellParent sys s event
  | script owner body => exact calm_script sys owner body
  | resume owner target next => exact Steady.calm (.refl _) rfl
  | keep sessions => exact calm_done _
  | leave => cases hf
  | reply result => exact Steady.calm (.refl _) rfl
  | fire time moving => cases hf
  | fired s => exact calm_afterFire sys s answer
  | arrive time => cases hf

section Touch

variable (sys : System) (f : Frame)

theorem touch_numbers : (f.touch sys).nextObserver = sys.nextObserver := by
  unfold Frame.touch
  split <;> rfl

theorem touch_clock : (f.touch sys).clock = sys.clock := by
  unfold Frame.touch
  split <;> rfl

theorem touch_depth : (f.touch sys).depth = sys.depth := by
  unfold Frame.touch
  split <;> rfl

theorem touch_unhandled : (f.touch sys).unhandled = sys.unhandled := by
  unfold Frame.touch
  split <;> rfl

theorem sound_touch {sys : System} (h : sys.scheduler.Sound) : (f.touch sys).scheduler.Sound := by
  unfold Frame.touch
  split
  · exact h.schedule _
  · exact h.cancel _ _
  · exact h.cancelOwner _
  · exact h

end Touch

theorem leave_clock (sys : System) : sys.leave.1.clock = sys.clock ∧
    sys.leave.1.scheduler = sys.scheduler ∧ sys.leave.1.depth = sys.depth - 1 := by
  unfold System.leave
  simp only
  split <;> exact ⟨rfl, rfl, rfl⟩

theorem numbers_fire (sys : System) (time : Nat) (moving : Bool) :
    sys.nextObserver ≤ (fire sys time moving).system.nextObserver := by
  cases hpop : sys.scheduler.popDue? time with
  | none =>
      rw [fire_none hpop]
      exact Nat.le_refl _
  | some popped =>
      obtain ⟨timer, scheduler⟩ := popped
      have hstruck : (struck sys moving timer scheduler).nextObserver = sys.nextObserver := by
        cases moving <;> rfl
      rw [fire_some hpop, ← hstruck]
      exact (calm_fireTimer _ timer).numbers

/-- No number of an observer is given out again. -/
theorem frame_numbers (sys : System) (answer : Except ActorError Unit) (f : Frame) :
    sys.nextObserver ≤ (frame sys answer f).system.nextObserver := by
  cases hstill : f.still with
  | true => exact touch_numbers sys f ▸ (frame_calm sys answer hstill).numbers
  | false =>
      cases f with
      | leave =>
          show _ ≤ sys.leave.1.nextObserver
          unfold System.leave
          simp only
          split <;> exact Nat.le_refl _
      | fire time moving => exact numbers_fire sys time moving
      | arrive time => exact Nat.le_refl _
      | _ => cases hstill

/-- A frame that does not let time pass ends a delivery, or is still. -/
theorem inner_cases {f : Frame} (hf : f.inner = true) : f = .leave ∨ f.still = true := by
  cases f <;> simp_all [Frame.inner, Frame.still]

/-- What a frame that does not let time pass does to the clock and the timers. -/
theorem frame_inner (sys : System) (answer : Except ActorError Unit) {f : Frame}
    (hf : f.inner = true) :
    (frame sys answer f).system.clock = sys.clock ∧
      (frame sys answer f).system.scheduler = (f.touch sys).scheduler ∧
      (frame sys answer f).frames.all Frame.inner = true := by
  rcases inner_cases hf with rfl | hstill
  · exact ⟨(leave_clock sys).1, (leave_clock sys).2.1, rfl⟩
  · have hcalm := frame_calm sys answer hstill
    exact ⟨hcalm.clock.trans (touch_clock sys f), hcalm.scheduler, hcalm.inner⟩

/-- The depth is the number of deliveries that are still to be ended. -/
theorem frame_depth (sys : System) (answer : Except ActorError Unit) {f : Frame}
    (hf : f.inner = true) (hdepth : f.isLeave = true → 0 < sys.depth) :
    (frame sys answer f).system.depth + leaves [f] =
      sys.depth + leaves (frame sys answer f).frames := by
  rcases inner_cases hf with rfl | hstill
  · have hleave : (frame sys answer .leave).system.depth = sys.depth - 1 := (leave_clock sys).2.2
    rw [hleave]
    exact Nat.sub_add_cancel (hdepth rfl)
  · have hone : [f].all Frame.still = true := by rw [List.all_cons, hstill]; rfl
    rw [(leaves_of_still hone).1, (frame_calm sys answer hstill).depth, touch_depth]
    rfl

end Delivery

end Statechart
