import Statechart.Proofs.Running
import Statechart.Proofs.Timing

/-!
# Timers in the course of things

A step sends the event of the first timer that is due, or the frame on top touches the timers, or
they stay as they are (`Delivery.Retimes`). So a timer stays until its event is sent or its owner
withdraws it (`Delivery.step_timer`), and a new one has been asked for by an effect
(`Delivery.mem_step`).

Between calls the application leaves the timers alone (`Delivery.Timed`). Then the calls in progress
are always counted rightly and the timers are in order (`Delivery.Attuned`), so that a system
without calls in progress is idle (`Delivery.Timed.idle`).
-/

namespace Statechart

/-- No call is in progress. -/
structure System.Idle (sys : System) : Prop where
  depth : sys.depth = 0
  unhandled : sys.unhandled = []
  timers : sys.scheduler.Sound

/-! ## Frames -/

/-- A frame by which an actor withdraws a timer: it cancels the id, schedules another event under
it, or retires. -/
def Frame.Withdraws (timer : Timer) : Frame → Prop
  | .effects s (.cancel id :: _) => timer.IsCalled s id
  | .effects s (.send _ _ (some _) (some id) :: _) => timer.IsCalled s id
  | .retire s => timer.owner = s
  | _ => False

/-- A frame by which an actor sets a timer. -/
def Frame.Sets (sys : System) (timer : Timer) : Frame → Prop
  | .effects s (.send target event (some ms) id :: _) =>
      timer = { due := sys.clock.now + ms, owner := s, id, target, event }
  | _ => False

section Touch

variable {sys : System} {f : Frame} {entry : Scheduler.Key × Timer}

/-- A timer stays unless it is withdrawn. -/
theorem Frame.touch_mem (hsound : sys.scheduler.Sound) (h : entry ∈ sys.scheduler.timers) :
    f.Withdraws entry.2 ∨ entry ∈ (f.touch sys).scheduler.timers := by
  fun_cases Frame.touch sys f with
  | case1 s target event ms id rest =>
      by_cases hcalled : ∃ own, id = some own ∧ entry.2.IsCalled s own
      · obtain ⟨own, rfl, hcalled⟩ := hcalled
        exact .inl hcalled
      · refine .inr ((Scheduler.mem_schedule_iff hsound).mpr (.inr ⟨h, ?_⟩))
        exact fun own hid hown => hcalled ⟨own, hid, hown⟩
  | case2 s id rest =>
      by_cases hcalled : entry.2.IsCalled s id
      · exact .inl hcalled
      · exact .inr ((Scheduler.mem_cancel_iff hsound).mpr ⟨h, hcalled⟩)
  | case3 s =>
      by_cases howner : entry.2.owner = s
      · exact .inl howner
      · exact .inr (Scheduler.mem_cancelOwner_iff.mpr ⟨h, howner⟩)
  | case4 => exact .inr h

/-- A timer that there is afterwards has been set, or it was there and is not withdrawn. -/
theorem Frame.mem_touch (hsound : sys.scheduler.Sound)
    (h : entry ∈ (f.touch sys).scheduler.timers) :
    f.Sets sys entry.2 ∨ entry ∈ sys.scheduler.timers ∧ ¬ f.Withdraws entry.2 := by
  unfold Frame.touch at h
  split at h
  · rename_i s target event ms id rest
    rcases (Scheduler.mem_schedule_iff hsound).mp h with rfl | ⟨hold, hother⟩
    · exact .inl rfl
    · refine .inr ⟨hold, ?_⟩
      cases id with
      | none => exact fun hwithdraws => hwithdraws
      | some id => exact hother id rfl
  · exact .inr ((Scheduler.mem_cancel_iff hsound).mp h)
  · exact .inr (Scheduler.mem_cancelOwner_iff.mp h)
  · rename_i hsend hcancel hretire
    refine .inr ⟨h, fun hwithdraws => ?_⟩
    unfold Frame.Withdraws at hwithdraws
    split at hwithdraws
    · exact hcancel _ _ _ rfl
    · exact hsend _ _ _ _ _ _ rfl
    · exact hretire _ rfl
    · exact hwithdraws

/-- Frames that let time pass withdraw nothing. -/
theorem Frame.Withdraws.inner {timer : Timer} (h : f.Withdraws timer) : f.inner = true := by
  cases f <;> first | rfl | exact h.elim

end Touch

/-- The event of a timer as it is sent. -/
structure Firing where
  /-- What the clock shows. -/
  time : Nat
  timer : Timer
  /-- The actor that gets the event, if there is one. -/
  recipient : Option Session
deriving DecidableEq

namespace Delivery

/-! ## What happens to timers -/

def recipient? (sys : System) (timer : Timer) : Option Session :=
  match timer.target with
  | .actor s => some s
  | .session s => sys.lookup? s

/-- The event of a timer that is sent now. -/
def firing (sys : System) (timer : Timer) : Firing where
  time := sys.clock.now
  timer
  recipient := recipient? sys timer

/-- The event of a timer that the top frame sends. -/
def firing? (d : Delivery) : Option Firing :=
  match d.frames with
  | .fire time moving :: _ =>
      (d.system.scheduler.popDue? time).map fun popped =>
        firing (struck { d.system with pins := pins d.frames } moving popped.1 popped.2) popped.1
  | _ => none

/-- Whether a step sends the event of an entry of the scheduler. -/
def Sends (d : Delivery) (entry : Scheduler.Key × Timer) : Prop :=
  d.firing?.map Firing.timer = some entry.2 ∧ d.system.scheduler.timers.head? = some entry

/-- Whether a step is one by which an actor withdraws a timer. -/
def Withdraws (d : Delivery) (timer : Timer) : Prop :=
  ∃ top, d.frames.head? = some top ∧ top.Withdraws timer

/-- Whether a step is one by which an actor sets a timer. -/
def Sets (d : Delivery) (timer : Timer) : Prop :=
  ∃ top, d.frames.head? = some top ∧ top.Sets d.system timer

/-- What a step can make of the timers. -/
inductive Retimes (d : Delivery) : Scheduler → Prop
  | same (htop : ∀ top, d.frames.head? = some top → top.inner = false) :
      Retimes d d.system.scheduler
  | touched {top : Frame} {rest : List Frame} (hframes : d.frames = top :: rest) :
      Retimes d (top.touch d.system).scheduler
  | sent {time : Nat} {moving : Bool} {rest : List Frame} {timer : Timer} {scheduler : Scheduler}
      (hframes : d.frames = .fire time moving :: rest)
      (hpop : d.system.scheduler.popDue? time = some (timer, scheduler)) : Retimes d scheduler

variable {c d d' first : Delivery} {past : List Delivery} {entry : Scheduler.Key × Timer}

theorem step_cons {top : Frame} {rest : List Frame} (h : c.frames = top :: rest) :
    c.step = (frame { c.system with pins := pins (top :: rest) } c.answer top).before rest := by
  rw [step, h]

theorem touch_pins (sys : System) (sessions : List Session) (f : Frame) :
    (f.touch { sys with pins := sessions }).scheduler = (f.touch sys).scheduler := by
  unfold Frame.touch
  split <;> rfl

theorem retimes_step (c : Delivery) : c.Retimes c.step.system.scheduler := by
  cases hframes : c.frames with
  | nil =>
      have hstep : c.step = c := by rw [step, hframes]
      rw [hstep]
      exact .same (by simp [hframes])
  | cons top rest =>
      rw [step_cons hframes, before]
      by_cases hinner : top.inner = true
      · rw [(frame_inner _ c.answer hinner).2.1, touch_pins]
        exact .touched hframes
      · cases top with
        | fire time moving =>
            cases hpop : c.system.scheduler.popDue? time with
            | none =>
                have hfire : fire { c.system with pins := pins (.fire time moving :: rest) } time
                    moving = _ := fire_none hpop
                simp only [frame, hfire]
                exact .same (by simp [hframes, Frame.inner])
            | some popped =>
                have hfire : fire { c.system with pins := pins (.fire time moving :: rest) } time
                    moving = _ := fire_some hpop
                simp only [frame, hfire, before, (calm_fireTimer _ _).scheduler]
                unfold struck
                split <;> exact .sent hframes hpop
        | arrive time => exact .same (by simp [hframes, Frame.inner])
        | _ => exact absurd rfl hinner

/-- Timers that are in order stay so. -/
theorem sound_step (hsound : c.system.scheduler.Sound) : c.step.system.scheduler.Sound := by
  generalize c.step.system.scheduler = after, retimes_step c = h
  cases h with
  | same _ => exact hsound
  | touched _ => exact sound_touch _ hsound
  | sent _ hpop => exact (Scheduler.popDue?_eq_some hsound hpop).2.1

/-- A timer stays until its event is sent or it is withdrawn. -/
theorem step_timer (hsound : c.system.scheduler.Sound)
    (h : entry ∈ c.system.scheduler.timers) :
    c.Sends entry ∨ c.Withdraws entry.2 ∨ entry ∈ c.step.system.scheduler.timers := by
  generalize c.step.system.scheduler = after, retimes_step c = hstep
  cases hstep with
  | same _ => exact .inr (.inr h)
  | sent hframes hpop =>
      obtain ⟨-, -, key, htimers⟩ := Scheduler.popDue?_eq_some hsound hpop
      rw [htimers] at h
      rcases List.mem_cons.mp h with rfl | hrest
      · refine .inl ⟨?_, by rw [htimers]; rfl⟩
        simp only [firing?, hframes, hpop]
        rfl
      · exact .inr (.inr hrest)
  | touched hframes =>
      exact .inr ((Frame.touch_mem hsound h).imp_left fun h => ⟨_, by rw [hframes]; rfl, h⟩)

/-- A timer that there is after a step has just been set, or it was there and is not withdrawn. -/
theorem mem_step (hsound : c.system.scheduler.Sound)
    (h : entry ∈ c.step.system.scheduler.timers) :
    c.Sets entry.2 ∨ entry ∈ c.system.scheduler.timers ∧ ¬ c.Withdraws entry.2 := by
  generalize c.step.system.scheduler = after, retimes_step c = hstep at h
  cases hstep with
  | same htop =>
      refine .inr ⟨h, ?_⟩
      rintro ⟨top, hframes, hwithdraws⟩
      exact Bool.false_ne_true ((htop top hframes).symm.trans hwithdraws.inner)
  | sent hframes hpop =>
      obtain ⟨-, -, key, htimers⟩ := Scheduler.popDue?_eq_some hsound hpop
      refine .inr ⟨htimers ▸ List.mem_cons_of_mem _ h, ?_⟩
      rintro ⟨top, htop, hwithdraws⟩
      rw [hframes] at htop
      cases htop
      exact hwithdraws
  | touched hframes =>
      refine (Frame.mem_touch hsound h).imp (fun h => ⟨_, by rw [hframes]; rfl, h⟩) ?_
      rintro ⟨hold, hnot⟩
      refine ⟨hold, ?_⟩
      rintro ⟨top, htop, hwithdraws⟩
      rw [hframes] at htop
      cases htop
      exact hnot hwithdraws

/-! ## Calls in progress -/

theorem leaves_cons (f : Frame) (frames : List Frame) :
    leaves (f :: frames) = leaves [f] + leaves frames := leaves_append [f] frames

/-- Every call in progress is still to be ended, errors are only kept meanwhile, and the timers are
in order. -/
structure Attuned (d : Delivery) : Prop where
  depth : d.system.depth = leaves d.frames
  unhandled : d.system.depth = 0 → d.system.unhandled = []
  timers : d.system.scheduler.Sound

theorem Attuned.idle (h : d.Attuned) (hidle : d.frames = []) : d.system.Idle := by
  have hdepth := h.depth
  rw [hidle] at hdepth
  exact ⟨hdepth, h.unhandled hdepth, h.timers⟩

theorem leave_unhandled (sys : System) (h : sys.leave.1.depth = 0) : sys.leave.1.unhandled = [] := by
  unfold System.leave at h ⊢
  simp only at h ⊢
  split at h <;> rename_i hzero
  · rw [if_pos hzero]
  · exact absurd h hzero

/-- Frames that let time pass count the calls in progress as all other ones do. -/
theorem frame_counts (sys : System) (answer : Except ActorError Unit) {f : Frame}
    (hf : f.isLeave = false) :
    (frame sys answer f).system.depth = sys.depth + leaves (frame sys answer f).frames ∧
      (sys.depth = 0 → (frame sys answer f).system.unhandled = sys.unhandled) := by
  by_cases hinner : f.inner = true
  · rcases inner_cases hinner with rfl | hstill
    · cases hf
    · have hcalm := frame_calm sys answer hstill
      refine ⟨by rw [hcalm.depth, touch_depth], fun hzero => ?_⟩
      rw [hcalm.unhandled ((touch_depth sys f).trans hzero), touch_unhandled]
  · cases f with
    | fire time moving =>
        cases hpop : sys.scheduler.popDue? time with
        | none =>
            rw [frame, fire_none hpop]
            exact ⟨rfl, fun _ => rfl⟩
        | some popped =>
            rw [frame, fire_some hpop]
            have hcalm := calm_fireTimer (struck sys moving popped.1 popped.2) popped.1
            -- to take the timer and move the clock counts no call
            have hstruck : (struck sys moving popped.1 popped.2).depth = sys.depth ∧
                (struck sys moving popped.1 popped.2).unhandled = sys.unhandled := by
              unfold struck
              split <;> exact ⟨rfl, rfl⟩
            refine ⟨?_, fun hzero => ?_⟩
            · rw [before, leaves_append]
              simp only
              rw [hcalm.depth, hstruck.1]
              rfl
            · rw [before]
              exact (hcalm.unhandled (hstruck.1.trans hzero)).trans hstruck.2
    | arrive time => exact ⟨rfl, fun _ => rfl⟩
    | _ => exact absurd rfl hinner

theorem Attuned.step (h : d.Attuned) : d.step.Attuned := by
  have htimers := sound_step h.timers
  cases hframes : d.frames with
  | nil =>
      rw [show d.step = d by rw [Delivery.step, hframes]]
      exact h
  | cons top rest =>
      have hdepth := h.depth
      rw [hframes, leaves_cons] at hdepth
      rw [step_cons hframes] at htimers ⊢
      cases hleave : top.isLeave with
      -- only the end of a delivery takes one off the count
      | true =>
          obtain rfl : top = .leave := by cases top <;> first | rfl | cases hleave
          have hone : leaves [.leave] = 1 := rfl
          refine ⟨?_, fun hzero => leave_unhandled _ hzero, htimers⟩
          refine (leave_clock { d.system with pins := pins (.leave :: rest) }).2.2.trans ?_
          simp only [frame, before, List.nil_append]
          omega
      | false =>
          obtain ⟨hcount, hunhandled⟩ :=
            frame_counts { d.system with pins := pins (top :: rest) } d.answer hleave
          have hnone : leaves [top] = 0 := List.countP_eq_zero.mpr (by simp [hleave])
          simp only at hcount hunhandled
          refine ⟨?_, fun hzero => ?_, htimers⟩
          · simp only [before, leaves_append]
            omega
          · have hbefore : d.system.depth = 0 := by
              simp only [before] at hzero
              omega
            exact (hunhandled hbefore).trans (h.unhandled hbefore)

/-! ## Runs in which only calls touch the timers -/

/-- When no call is in progress before or after, timers and kept errors are the same. -/
def Apart (d d' : Delivery) : Prop :=
  d.frames = [] → d'.frames = [] → d'.system.scheduler = d.system.scheduler ∧
    d'.system.depth = d.system.depth ∧ d'.system.unhandled = d.system.unhandled

/-- What has happened since a delivery, latest first, as in a run. Between calls the application
leaves the timers and the errors of calls alone. -/
inductive Timed (first : Delivery) : List Delivery → Delivery → Prop
  | refl : Timed first [] first
  | next {past : List Delivery} {d d' : Delivery} (h : Timed first past d) (hnext : d.Happens d')
      (hapart : d.Apart d') : Timed first (d :: past) d'

theorem Timed.run (h : first.Timed past d) : first.Run past d := by
  induction h with
  | refl => exact .refl
  | next _ hnext _ ih => exact ih.next hnext

/-- A run can be taken apart wherever it has been. -/
theorem Timed.split (h : first.Timed past d) {e : Delivery} (he : e ∈ d :: past) :
    ∃ before after, first.Timed before e ∧ e.Timed after d ∧ past = after ++ before := by
  induction h with
  | refl =>
      rw [List.mem_singleton.mp he]
      exact ⟨[], [], .refl, .refl, rfl⟩
  | @next past d d' hbefore hnext hapart ih =>
      rcases List.mem_cons.mp he with rfl | he
      · exact ⟨d :: past, [], .next hbefore hnext hapart, .refl, rfl⟩
      · obtain ⟨before, after, hfirst, hlast, rfl⟩ := ih he
        exact ⟨before, d :: after, hfirst, hlast.next hnext hapart, rfl⟩

/-- A delivery that goes on by itself. -/
theorem Timed.goOn (h : first.Timed past d) (n : Nat) :
    first.Timed (goOn n (past, d)).1 (goOn n (past, d)).2 := by
  -- a delivery that is at its end stays there, and such a step is no call of the application
  induction n generalizing past d with
  | zero => exact h
  | succ n ih =>
      refine ih (h.next (.step d) fun hidle _ => ?_)
      rw [show d.step = d by rw [step, hidle]]
      exact ⟨rfl, rfl, rfl⟩

/-- When no call is in progress the application touches no timer, and begins one call at most. -/
theorem Happens.outside (h : d.Happens d') (hapart : d.Apart d') (hidle : d.frames = []) :
    d'.system.scheduler = d.system.scheduler ∧
      d'.system.depth = d.system.depth + leaves d'.frames ∧
        (d'.system.depth = 0 → d'.system.unhandled = d.system.unhandled) := by
  have hcalm : ∀ {x : Delivery}, Calm d.system x → x.system.scheduler = d.system.scheduler ∧
      x.system.depth = d.system.depth + leaves x.frames ∧
        (x.system.depth = 0 → x.system.unhandled = d.system.unhandled) := by
    intro x hx
    refine ⟨hx.scheduler, hx.depth, fun hzero => hx.unhandled ?_⟩
    have := hx.depth
    omega
  have hsteady : ∀ {sys : System}, d.system.Steady sys → sys.scheduler = d.system.scheduler ∧
      sys.depth = d.system.depth + leaves [] ∧
        (sys.depth = 0 → sys.unhandled = d.system.unhandled) :=
    fun h => ⟨h.scheduler, h.depth, fun _ => h.unhandled⟩
  cases h with
  | step =>
      -- there is no frame to carry out
      rw [show d.step = d by rw [Delivery.step, hidle], hidle]
      exact ⟨rfl, rfl, fun _ => rfl⟩
  | call _ s c => exact hcalm (calm_call _ _ _)
  | make _ logic spec => exact hsteady (steady_spawn _ _ _)
  | drive _ m hspawn scope scope' hscope result h =>
      exact hsteady (hscope ▸ h.carries System.carried_steady (hspawn ▸ steady_spawn))
  | follow _ s o hopen =>
      rw [subscribe, if_neg hopen]
      have hnumbered : d.system.Steady { d.system with nextObserver := d.system.nextObserver + 1 } :=
        ⟨rfl, rfl, rfl, rfl, Nat.le_succ _⟩
      exact hsteady (hnumbered.trans (System.steady_modify _ s _))
  | tellEnd _ o => exact ⟨rfl, rfl, fun _ => rfl⟩
  | unfollow _ subscription =>
      refine hsteady ?_
      unfold System.unsubscribe
      split
      · exact .refl _
      · exact System.steady_modify _ _ _
  | fireDue _ => exact ⟨rfl, rfl, fun hzero => absurd hzero (Nat.succ_ne_zero _)⟩
  | advance _ ms => exact ⟨rfl, rfl, fun hzero => absurd hzero (Nat.succ_ne_zero _)⟩
  | arrange _ sys hquiet =>
      obtain ⟨hscheduler, hdepth, hunhandled⟩ := hapart hidle rfl
      exact ⟨hscheduler, hdepth, fun _ => hunhandled⟩

/-- Whatever happens, everything stays in tune. -/
theorem Attuned.next (hd : d.Attuned) (h : d.Happens d') (hapart : d.Apart d') : d'.Attuned := by
  by_cases hidle : d.frames = []
  · obtain ⟨hscheduler, hdepth, hunhandled⟩ := h.outside hapart hidle
    have hsys := hd.idle hidle
    refine ⟨?_, fun hzero => (hunhandled hzero).trans hsys.unhandled, hscheduler ▸ hsys.timers⟩
    rw [hdepth, hsys.depth, Nat.zero_add]
  · rw [h.eq_step hidle]
    exact hd.step

theorem Timed.attuned (h : first.Timed past d) (hfirst : first.Attuned) : d.Attuned := by
  induction h with
  | refl => exact hfirst
  | next _ hnext hapart ih => exact ih.next hnext hapart

/-- A system without calls in progress is idle. -/
theorem Timed.idle (h : first.Timed past d) (hfirst : first.Attuned) (hidle : d.frames = []) :
    d.system.Idle := (h.attuned hfirst).idle hidle

theorem attuned_done {sys : System} (h : sys.Idle) : (done sys).Attuned :=
  ⟨h.depth, fun _ => h.unhandled, h.timers⟩

/-- The application makes a call. -/
theorem Timed.call (h : first.Timed past d) (hfirst : first.Attuned) (hidle : d.frames = [])
    (s : Session) (c : Call) : first.Timed (d :: past) (Delivery.call d.system s c) := by
  have hzero := (h.idle hfirst hidle).depth
  have hcalm := calm_call d.system s c
  refine h.next (.call d hidle s c) fun _ hdone => ⟨hcalm.scheduler, ?_, hcalm.unhandled hzero⟩
  rw [hcalm.depth, hdone]
  rfl

/-- The application has an actor made. -/
theorem Timed.make (h : first.Timed past d) (hidle : d.frames = []) (logic : Logic)
    (spec : ActorSpec) : first.Timed (d :: past) (done (spawn d.system logic spec).1) := by
  have hsteady := steady_spawn d.system logic spec
  exact h.next (.make d hidle logic spec) fun _ _ =>
    ⟨hsteady.scheduler, hsteady.depth, hsteady.unhandled⟩

/-- The application holds an actor by name. -/
theorem Timed.hold (h : first.Timed past d) (hidle : d.frames = []) (name : String) (s : Session) :
    first.Timed (d :: past) (done (d.system.hold name s)) :=
  h.next (.arrange _ hidle _ (.of_eq rfl rfl rfl rfl)) fun _ _ => ⟨rfl, rfl, rfl⟩

/-- The application lets go of an actor. -/
theorem Timed.drop (h : first.Timed past d) (hidle : d.frames = []) (name : String) :
    first.Timed (d :: past) (done (d.system.drop name)) :=
  h.next (.arrange _ hidle _ (.of_eq rfl rfl rfl rfl)) fun _ _ => ⟨rfl, rfl, rfl⟩

theorem timed_startRun (logic : Logic) (n : Nat) :
    (done {}).Timed (startRun logic n).1 (startRun logic n).2 := by
  have hmade : (done {}).Timed [done {}] (done (spawn {} logic {}).1) :=
    Timed.refl.make rfl logic {}
  exact (hmade.call (attuned_done ⟨rfl, rfl, Scheduler.sound_empty⟩) rfl ⟨0⟩ .start).goOn n

end Delivery

end Statechart
