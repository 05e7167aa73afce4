import Statechart.Proofs.Owing
import Statechart.Proofs.Timekeeping

/-!
# Advancing the clock

To let time pass in two portions is the same as to let all of it pass at once
(`System.advance_add`): the same events are sent at the same times, and the system is the same
afterwards.

The frames of `System.advance` stand below all others. While these are at work both ways go
together, and whenever they are done the next timer is taken (`Delivery.next?`). The two ways part
when nothing is due in the first portion (`Course.cut`). From then on one of them has the errors of
the first portion still with it, which makes no difference but for the answer (`course_owing`).
-/

namespace Statechart

/-! ## Deliveries that let time pass -/

namespace Delivery

/-- What a delivery passes within a number of steps, until nothing is left to be done. -/
def passed : Nat → Delivery → List Delivery
  | 0, _ => []
  | n + 1, d =>
      match d.frames with
      | [] => []
      | _ :: _ => d :: passed n d.step

end Delivery

namespace System

/-- The delivery that lets time pass. -/
def advancing (sys : System) (ms : Nat) : Delivery :=
  .doing sys.enter [.fire (sys.clock.now + ms) true, .arrive (sys.clock.now + ms), .leave]

/-- Whether the call that lets time pass comes to its end. -/
def Returns (sys : System) (ms : Nat) : Prop :=
  (Delivery.step^[patience] (sys.advancing ms)).frames = []

/-- What the call passes on its way. -/
def course (sys : System) (ms : Nat) : List Delivery := (sys.advancing ms).passed patience

/-- The events that are sent on the way. -/
def firings (sys : System) (ms : Nat) : List Firing := (sys.course ms).filterMap Delivery.firing?

end System

namespace Delivery

variable {c c' : Delivery} {time later : Nat}

/-! ## Steps below and above the clock -/

/-- A delivery with the frames below that let time pass. -/
def toward (c : Delivery) (time : Nat) : Delivery :=
  c.before [.fire time true, .arrive time, .leave]

/-- What comes next while time passes: the next step, or else the next timer. -/
def next? (c : Delivery) (time : Nat) : Option Delivery :=
  match c.frames with
  | _ :: _ => some c.step
  | [] =>
      match c.system.scheduler.popDue? time with
      | none => none
      | some (timer, scheduler) =>
          some (fireTimer (struck { c.system with pins := [] } true timer scheduler) timer)

theorem next?_cons (h : c.frames ≠ []) : c.next? time = some c.step := by
  unfold next?
  split
  · rfl
  · exact absurd ‹_› h

theorem next?_nil (h : c.frames = []) : c.next? time =
    (c.system.scheduler.popDue? time).map fun popped =>
      fireTimer (struck { c.system with pins := [] } true popped.1 popped.2) popped.1 := by
  unfold next?
  rw [h]
  simp only
  split <;> rename_i hpop <;> rw [hpop] <;> rfl

theorem pins_toward (frames : List Frame) :
    pins (frames ++ [.fire time true, .arrive time, .leave]) = pins frames := by
  simp [pins, Frame.keeps]

/-- With time passing below, what comes next is a step. -/
theorem step_toward (h : c.next? time = some c') : (c.toward time).step = c'.toward time := by
  obtain ⟨sys, frames, answer⟩ := c
  cases frames with
  | cons top rest =>
      cases h
      have hpins : pins (top :: (rest ++ [.fire time true, .arrive time, .leave])) =
          pins (top :: rest) := pins_toward (top :: rest)
      have hstep : (toward { system := sys, frames := top :: rest, answer } time).step =
          (frame { sys with pins := pins (top :: (rest ++ [.fire time true, .arrive time, .leave])) }
            answer top).before (rest ++ [.fire time true, .arrive time, .leave]) := rfl
      rw [hstep, hpins]
      exact (before_append _ rest _).symm
  | nil =>
      rw [next?_nil rfl, Option.map_eq_some_iff] at h
      obtain ⟨⟨timer, scheduler⟩, hpop, rfl⟩ := h
      have hfire : fire { sys with pins := [] } time true = _ := fire_some hpop
      have hstep : (toward { system := sys, frames := [], answer } time).step =
          (fire { sys with pins := [] } time true).before [.arrive time, .leave] := rfl
      rw [hstep, hfire, before_append]
      rfl

/-- The end: the clock is moved on, and the delivery is over. -/
def arrived (c : Delivery) (time : Nat) : Delivery where
  system := ({ c.system with pins := [] }.setNow time).leave.1
  answer := ({ c.system with pins := [] }.setNow time).leave.2

/-- When nothing is due, three steps are left. -/
def lastSteps (c : Delivery) (time : Nat) : List Delivery :=
  [c.toward time, doing { c.system with pins := [] } [.arrive time, .leave],
    doing ({ c.system with pins := [] }.setNow time) [.leave]]

theorem next?_eq_none (h : c.next? time = none) :
    c.frames = [] ∧ c.system.scheduler.popDue? time = none := by
  by_cases hframes : c.frames = []
  · rw [next?_nil hframes, Option.map_eq_none_iff] at h
    exact ⟨hframes, h⟩
  · rw [next?_cons hframes] at h
    cases h

/-- The steps when nothing is due. -/
theorem steps_of_none (h : c.next? time = none) :
    (c.toward time).step = doing { c.system with pins := [] } [.arrive time, .leave] ∧
      step^[2] (c.toward time) = doing ({ c.system with pins := [] }.setNow time) [.leave] ∧
      step^[3] (c.toward time) = c.arrived time := by
  obtain ⟨hframes, hpop⟩ := next?_eq_none h
  obtain ⟨sys, frames, answer⟩ := c
  cases hframes
  have hfire : fire { sys with pins := [] } time true = _ := fire_none hpop
  have hfirst : (toward { system := sys, frames := [], answer } time).step =
      doing { sys with pins := [] } [.arrive time, .leave] := by
    have hstep : (toward { system := sys, frames := [], answer } time).step =
        (fire { sys with pins := [] } time true).before [.arrive time, .leave] := rfl
    rw [hstep, hfire]
    rfl
  refine ⟨hfirst, ?_, ?_⟩
  · rw [Function.iterate_succ_apply, hfirst]
    rfl
  · rw [Function.iterate_succ_apply, hfirst]
    rfl

/-- What is due at one time is due later as well. -/
theorem next?_mono (hle : time ≤ later) (h : c.next? time = some c') :
    c.next? later = some c' := by
  by_cases hframes : c.frames = []
  · rw [next?_nil hframes, Option.map_eq_some_iff] at h ⊢
    obtain ⟨popped, hpop, hc'⟩ := h
    exact ⟨popped, Scheduler.popDue?_mono hle hpop, hc'⟩
  · rw [next?_cons hframes] at h ⊢
    exact h

/-! ## Courses -/

/-- How things go while time passes up to some time, and what is passed on the way. -/
inductive Course (time : Nat) : Delivery → List Delivery → Delivery → Prop
  | refl (c : Delivery) : Course time c [] c
  | next {c c₁ e : Delivery} {way : List Delivery} (h : c.next? time = some c₁)
      (hrest : Course time c₁ way e) : Course time c (c :: way) e

variable {e : Delivery} {way : List Delivery}

/-- A course is what the steps of the call are, above the frames that let time pass. -/
theorem Course.iterate (h : Course time c way e) :
    step^[way.length] (c.toward time) = e.toward time := by
  induction h with
  | refl c => rfl
  | next h _ ih => rw [List.length_cons, Function.iterate_succ_apply, step_toward h, ih]

theorem toward_frames (c : Delivery) (time : Nat) : (c.toward time).frames ≠ [] := by
  simp [toward, before]

/-- A call that comes to its end has a course until nothing is due. -/
theorem course_of_iterate : ∀ {n : Nat} {c : Delivery}, (step^[n] (c.toward time)).frames = [] →
    ∃ way e, Course time c way e ∧ e.next? time = none ∧ way.length + 3 ≤ n
  | 0, c, h => absurd h (toward_frames c time)
  | n + 1, c, h => by
      cases hnext : c.next? time with
      | none =>
          obtain ⟨hfirst, hsecond, -⟩ := steps_of_none hnext
          refine ⟨[], c, .refl c, hnext, ?_⟩
          match n with
          | 0 =>
              rw [Function.iterate_one, hfirst] at h
              cases h
          | 1 =>
              rw [hsecond] at h
              cases h
          | n + 2 =>
              simp only [List.length_nil]
              omega
      | some c₁ =>
          rw [Function.iterate_succ_apply, step_toward hnext] at h
          obtain ⟨way, e, hcourse, hend, hlength⟩ := course_of_iterate h
          exact ⟨c :: way, e, .next hnext hcourse, hend, by
            simp only [List.length_cons]
            omega⟩

/-- After its course a call arrives. -/
theorem Course.arrives (h : Course time c way e) (hend : e.next? time = none) {n : Nat}
    (hn : way.length + 3 ≤ n) : step^[n] (c.toward time) = e.arrived time := by
  obtain ⟨k, rfl⟩ := Nat.exists_eq_add_of_le hn
  rw [Nat.add_comm, Nat.add_comm way.length, Function.iterate_add_apply,
    Function.iterate_add_apply, h.iterate, (steps_of_none hend).2.2]
  exact iterate_of_nil rfl k

theorem passed_cons (h : c.frames ≠ []) (n : Nat) : passed (n + 1) c = c :: passed n c.step := by
  rw [passed]
  split
  · exact absurd ‹_› h
  · rfl

/-- What is passed is the course, and the last steps. -/
theorem Course.passed_eq (h : Course time c way e) (hend : e.next? time = none) :
    ∀ {n : Nat}, way.length + 3 ≤ n →
      passed n (c.toward time) = way.map (toward · time) ++ e.lastSteps time := by
  -- three more steps follow a course: the fire that finds nothing, the arrival and the leave
  induction h with
  | refl c =>
      intro n hn
      obtain ⟨k, rfl⟩ := Nat.exists_eq_add_of_le' hn
      obtain ⟨hfirst, hsecond, hthird⟩ := steps_of_none hend
      rw [Function.iterate_succ_apply, hfirst, Function.iterate_one] at hsecond
      rw [Function.iterate_succ_apply, Function.iterate_succ_apply, Function.iterate_one, hfirst,
        hsecond] at hthird
      rw [List.length_nil, ← Nat.add_assoc, Nat.add_zero, passed_cons (toward_frames c time), hfirst,
        passed_cons (by simp [doing]), hsecond, passed_cons (by simp [doing]), hthird]
      cases k <;> rfl
  | next h _ ih =>
      intro n hn
      obtain ⟨k, rfl⟩ := Nat.exists_eq_add_of_le' (Nat.le_trans (Nat.le_add_left 1 _) hn)
      rw [passed_cons (toward_frames _ time), step_toward h,
        ih hend (by simp only [List.length_cons] at hn; omega)]
      rfl

/-- A course up to some time is a course up to an earlier time at first, until nothing is due by
then. -/
theorem Course.cut (h : Course later c way e) (hend : e.next? later = none) (hle : time ≤ later) :
    ∃ way₁ c₁ way₂, Course time c way₁ c₁ ∧ c₁.next? time = none ∧ Course later c₁ way₂ e ∧
      way = way₁ ++ way₂ := by
  -- What comes next comes next for the earlier time too, or nothing is due by then and the course
  -- is cut here.
  induction h with
  | refl c =>
      refine ⟨[], c, [], .refl c, ?_, .refl c, rfl⟩
      cases hnext : c.next? time with
      | none => rfl
      | some c₁ => exact absurd ((next?_mono hle hnext).symm.trans hend) nofun
  | @next c c₁ e way h hrest ih =>
      cases hnext : c.next? time with
      | none => exact ⟨[], c, c :: way, .refl c, hnext, .next h hrest, rfl⟩
      | some c₁' =>
          obtain rfl := Option.some.inj ((next?_mono hle hnext).symm.trans h)
          obtain ⟨way₁, c₂, way₂, hfirst, hcut, hsecond, rfl⟩ := ih hend
          exact ⟨c :: way₁, c₂, way₂, .next hnext hfirst, hcut, hsecond, rfl⟩

/-! ## What is kept on the way -/

/-- Between the frames that let time pass there is nothing else that does, one delivery is in
progress for these, and the clock has not gone too far. -/
structure Poised (time : Nat) (c : Delivery) : Prop where
  depth : c.system.depth = leaves c.frames + 1
  inner : c.frames.all Frame.inner = true
  timers : c.system.scheduler.Sound
  simulated : c.system.clock.simulated = true
  now : c.system.clock.now ≤ time

/-- One thing that happens while time passes: the clock does not go back. -/
theorem Poised.next (h : c.Poised time) (hnext : c.next? time = some c') :
    c'.Poised time ∧ c.system.clock.now ≤ c'.system.clock.now := by
  obtain ⟨sys, frames, answer⟩ := c
  cases frames with
  -- a call in progress leaves the clock alone
  | cons top rest =>
      cases hnext
      have hdepth : sys.depth = leaves (top :: rest) + 1 := h.depth
      have hinner : top.inner = true ∧ rest.all Frame.inner = true := by
        have hall := h.inner
        rwa [List.all_cons, Bool.and_eq_true] at hall
      obtain ⟨hclock, hscheduler, hnew⟩ :=
        frame_inner { sys with pins := pins (top :: rest) } answer hinner.1
      have hframes := frame_depth { sys with pins := pins (top :: rest) } answer hinner.1
        fun _ => by simp only [hdepth]; omega
      refine ⟨⟨?_, ?_, ?_, ?_, ?_⟩, Nat.le_of_eq (congrArg Clock.now hclock).symm⟩
      · rw [step_cons rfl]
        have hsplit := leaves_cons top rest
        have hall := leaves_append (frame { sys with pins := pins (top :: rest) } answer top).frames
          rest
        simp only [before]
        simp only at hframes
        omega
      · rw [step_cons rfl]
        simp only [before, List.all_append, hnew, hinner.2, Bool.and_self]
      · rw [step_cons rfl]
        simp only [before, hscheduler]
        exact sound_touch top h.timers
      · rw [step_cons rfl]
        simp only [before, hclock]
        exact h.simulated
      · rw [step_cons rfl]
        simp only [before, hclock]
        exact h.now
  -- a timer fires, which is due by then
  | nil =>
      rw [next?_nil rfl, Option.map_eq_some_iff] at hnext
      obtain ⟨⟨timer, scheduler⟩, hpop, rfl⟩ := hnext
      obtain ⟨hdue, hsound, -⟩ := Scheduler.popDue?_eq_some h.timers hpop
      have hcalm := calm_fireTimer (struck { sys with pins := [] } true timer scheduler) timer
      have hdepth : sys.depth = leaves [] + 1 := h.depth
      have hnow : sys.clock.now ≤ time := h.now
      refine ⟨⟨?_, hcalm.inner, ?_, ?_, ?_⟩, ?_⟩
      · rw [hcalm.depth]
        exact (congrArg (· + _) hdepth).trans (Nat.add_comm _ _)
      · rw [hcalm.scheduler]
        exact hsound
      · rw [hcalm.clock]
        exact h.simulated
      · rw [hcalm.clock]
        exact Nat.max_le.mpr ⟨hnow, hdue⟩
      · rw [hcalm.clock]
        exact Nat.le_max_left _ _

theorem Course.poised (h : Course time c way e) (hc : c.Poised time) :
    e.Poised time ∧ (∀ d ∈ way, d.Poised time) := by
  induction h with
  | refl c => exact ⟨hc, fun d hd => absurd hd List.not_mem_nil⟩
  | next h _ ih =>
      obtain ⟨he, hway⟩ := ih (hc.next h).1
      refine ⟨he, fun d hd => ?_⟩
      rcases List.mem_cons.mp hd with rfl | hd
      · exact hc
      · exact hway d hd

/-- The clock does not go back on the way. -/
theorem Course.monotone (h : Course time c way e) (hc : c.Poised time) :
    (way ++ [e]).Pairwise (fun d d' => d.system.clock.now ≤ d'.system.clock.now) ∧
      ∀ d ∈ way ++ [e], c.system.clock.now ≤ d.system.clock.now := by
  induction h with
  | refl c =>
      refine ⟨List.pairwise_singleton _ _, fun d hd => ?_⟩
      rw [List.nil_append, List.mem_singleton] at hd
      rw [hd]
  | next h _ ih =>
      obtain ⟨hnext, hle⟩ := hc.next h
      obtain ⟨hpairs, hall⟩ := ih hnext
      have hlater := fun d hd => Nat.le_trans hle (hall d hd)
      refine ⟨.cons hlater hpairs, fun d hd => ?_⟩
      rcases List.mem_cons.mp hd with rfl | hd
      · exact Nat.le_refl _
      · exact hlater d hd

/-! ## The events that are sent -/

theorem firing?_cons (hinner : c.frames.all Frame.inner = true) (h : c.frames ≠ []) :
    (c.toward time).firing? = none := by
  obtain ⟨sys, frames, answer⟩ := c
  cases frames with
  | nil => exact absurd rfl h
  | cons top rest =>
      have htop : top.inner = true := (Bool.and_eq_true _ _ ▸ hinner).1
      cases top with
      | fire t moving => cases htop
      | _ => rfl

theorem firing?_nil (h : c.frames = []) : (c.toward time).firing? =
    (c.system.scheduler.popDue? time).map fun popped =>
      firing (struck { c.system with pins := [] } true popped.1 popped.2) popped.1 := by
  obtain ⟨sys, frames, answer⟩ := c
  cases h
  rfl

/-- The event is the same when more time is to pass. -/
theorem firing?_mono (hinner : c.frames.all Frame.inner = true) (hle : time ≤ later)
    (h : c.next? time = some c') : (c.toward later).firing? = (c.toward time).firing? := by
  by_cases hframes : c.frames = []
  · rw [next?_nil hframes, Option.map_eq_some_iff] at h
    obtain ⟨popped, hpop, -⟩ := h
    rw [firing?_nil hframes, firing?_nil hframes, hpop, Scheduler.popDue?_mono hle hpop]
  · rw [firing?_cons hinner hframes, firing?_cons hinner hframes]

theorem Course.firings_mono (h : Course time c way e) (hc : c.Poised time) (hle : time ≤ later) :
    (way.map (toward · later)).filterMap firing? =
      (way.map (toward · time)).filterMap firing? := by
  induction h with
  | refl c => rfl
  | next h _ ih =>
      rw [List.map_cons, List.map_cons, List.filterMap_cons, List.filterMap_cons,
        firing?_mono hc.inner hle h, ih (hc.next h).1]

/-- Nothing is sent in the last steps. -/
theorem firings_lastSteps (h : e.next? time = none) :
    (e.lastSteps time).filterMap firing? = [] := by
  obtain ⟨hframes, hpop⟩ := next?_eq_none h
  have hlast : (e.toward time).firing? = none := by rw [firing?_nil hframes, hpop]; rfl
  rw [lastSteps, List.filterMap_cons, hlast]
  rfl

/-! ## Timers on the way -/

/-- A timer that is gone in the end has been sent or withdrawn on the way. -/
theorem exists_passed {entry : Scheduler.Key × Timer} : ∀ {n : Nat} {c : Delivery},
    c.system.scheduler.Sound → entry ∈ c.system.scheduler.timers →
      entry ∉ (step^[n] c).system.scheduler.timers →
        ∃ d ∈ passed n c, d.Sends entry ∨ d.Withdraws entry.2
  | 0, _, _, h, hgone => absurd h hgone
  | n + 1, c, hsound, h, hgone => by
      by_cases hframes : c.frames = []
      · rw [iterate_of_nil hframes] at hgone
        exact absurd h hgone
      · rw [Function.iterate_succ_apply] at hgone
        rw [passed_cons hframes]
        rcases step_timer hsound h with hsends | hwithdraws | hstays
        · exact ⟨c, List.mem_cons_self, .inl hsends⟩
        · exact ⟨c, List.mem_cons_self, .inr hwithdraws⟩
        · obtain ⟨d, hd, hleaves⟩ := exists_passed (sound_step hsound) hstays hgone
          exact ⟨d, List.mem_cons_of_mem _ hd, hleaves⟩

/-- What is passed after some point is what is passed from there. -/
theorem passed_split : ∀ {n : Nat} {c d : Delivery} {before after : List Delivery},
    c.system.scheduler.Sound → passed n c = before ++ d :: after →
      d.system.scheduler.Sound ∧ ∃ k, d :: after = passed k d ∧ step^[k] d = step^[n] c
  | 0, _, _, before, _, _, h => absurd h.symm (List.append_ne_nil_of_right_ne_nil before nofun)
  | n + 1, c, d, before, after, hsound, h => by
      by_cases hframes : c.frames = []
      · rw [passed, hframes] at h
        exact absurd h.symm (List.append_ne_nil_of_right_ne_nil before nofun)
      · cases before with
        | nil =>
            have hd : d = c := by
              rw [passed_cons hframes] at h
              exact (List.cons.inj h).1.symm
            subst hd
            exact ⟨hsound, n + 1, h.symm, rfl⟩
        | cons x before =>
            rw [passed_cons hframes] at h
            rw [Function.iterate_succ_apply]
            exact passed_split (sound_step hsound) (List.cons.inj h).2

/-! ## Errors of the first portion -/

variable (es : List ActorError)

@[simp] theorem firing_owing (sys : System) (timer : Timer) :
    firing (sys.owing es) timer = firing sys timer := by
  have hrecipient : recipient? (sys.owing es) timer = recipient? sys timer := by
    unfold recipient?
    simp only [System.lookup?_owing]
  unfold firing
  rw [hrecipient]
  rfl

theorem struck_owing (sys : System) (timer : Timer) (scheduler : Scheduler) :
    struck { sys.owing es with pins := [] } true timer scheduler =
      (struck { sys with pins := [] } true timer scheduler).owing es := rfl

theorem next?_owing (hc : c.Poised time) :
    (c.owing es).next? time = (c.next? time).map (owing es) := by
  by_cases hframes : c.frames = []
  · have hframes' : (c.owing es).frames = [] := hframes
    rw [next?_nil hframes, next?_nil hframes', Option.map_map]
    refine congrArg (Option.map · _) (funext fun popped => ?_)
    exact (congrArg (fireTimer · popped.1) (struck_owing es c.system popped.1 popped.2)).trans
      (fireTimer_owing es _ _)
  · have hframes' : (c.owing es).frames ≠ [] := hframes
    rw [next?_cons hframes, next?_cons hframes', Option.map_some]
    refine congrArg some (step_owing es c fun f hf hleave => ?_)
    -- a delivery that ends up here is not the outermost one
    obtain ⟨rest, hrest⟩ : ∃ rest, c.frames = f :: rest := by
      cases hall : c.frames with
      | nil => exact absurd hall hframes
      | cons top rest =>
          rw [hall, List.head?_cons] at hf
          exact ⟨rest, by rw [Option.some.inj hf]⟩
    have hdepth := hc.depth
    rw [hrest, leaves_cons, leaves, List.countP_singleton, if_pos hleave] at hdepth
    omega

theorem firing?_owing (hinner : c.frames.all Frame.inner = true) :
    ((c.owing es).toward time).firing? = (c.toward time).firing? := by
  by_cases hframes : c.frames = []
  · have hframes' : (c.owing es).frames = [] := hframes
    rw [firing?_nil hframes, firing?_nil hframes']
    refine congrArg (Option.map · _) (funext fun popped => ?_)
    exact (congrArg (firing · popped.1) (struck_owing es c.system popped.1 popped.2)).trans
      (firing_owing es _ _)
  · have hframes' : (c.owing es).frames ≠ [] := hframes
    have hinner' : (c.owing es).frames.all Frame.inner = true := hinner
    rw [firing?_cons hinner hframes, firing?_cons hinner' hframes']

/-- A course with errors kept from before is one without them. -/
theorem course_owing {x : Delivery} (h : Course time x way e) :
    ∀ c : Delivery, x = c.owing es → c.Poised time →
      ∃ way' e', Course time c way' e' ∧ way = way'.map (owing es) ∧ e = e'.owing es ∧
        (way.map (toward · time)).filterMap firing? =
          (way'.map (toward · time)).filterMap firing? := by
  -- errors that are kept are read by the outermost call alone, which is not part of the course
  induction h with
  | refl x =>
      intro c hx _
      exact ⟨[], c, .refl c, rfl, hx, rfl⟩
  | @next x x₁ e way h _ ih =>
      rintro c rfl hc
      rw [next?_owing es hc, Option.map_eq_some_iff] at h
      obtain ⟨c₁, hnext, hx₁⟩ := h
      obtain ⟨way', e', hcourse, rfl, he, hfirings⟩ := ih c₁ hx₁.symm (hc.next hnext).1
      refine ⟨c :: way', e', .next hnext hcourse, rfl, he, ?_⟩
      rw [List.map_cons, List.map_cons, List.filterMap_cons, List.filterMap_cons,
        firing?_owing es hc.inner, hfirings]

/-! ## Between the portions -/

/-- What the caller is told of the errors that have been kept. -/
def verdict : List ActorError → Except ActorError Unit
  | [] => .ok ()
  | e :: _ => .error e

theorem verdict_append (es es' : List ActorError) :
    verdict (es ++ es') = (verdict es).bind fun _ => verdict es' := by
  cases es <;> rfl

theorem arrived_eq (hdepth : c.system.depth = 1) : c.arrived time =
    { system := { c.system with
        pins := [], clock := { c.system.clock with now := time }, depth := 0, unhandled := [] }
      answer := verdict c.system.unhandled } := by
  have hlast : ({ c.system with pins := [] }.setNow time).depth - 1 = 0 :=
    congrArg (· - 1) hdepth
  unfold arrived System.leave
  simp only [hlast, if_true]
  cases hunhandled : c.system.unhandled with
  | nil => simp [System.setNow, verdict]
  | cons x rest => simp [System.setNow, verdict]

theorem Poised.depth_eq (h : c.Poised time) (hframes : c.frames = []) : c.system.depth = 1 := by
  rw [h.depth, hframes]
  rfl

/-- Where the second portion begins. -/
def resumed (c : Delivery) (time : Nat) : Delivery := doing (c.arrived time).system.enter []

theorem Poised.resumed (h : c.Poised time) (hframes : c.frames = []) (hle : time ≤ later) :
    (c.resumed time).Poised later := by
  unfold Delivery.resumed
  rw [arrived_eq (h.depth_eq hframes)]
  exact ⟨rfl, rfl, h.timers, h.simulated, hle⟩

/-- The next timer is the same for both ways when nothing is due before. -/
theorem struck_resumed (h : c.Poised time) (hnone : c.next? time = none)
    {popped : Timer × Scheduler} (hpop : c.system.scheduler.popDue? later = some popped) :
    struck { c.system with pins := [] } true popped.1 popped.2 =
      (struck { (c.resumed time).system with pins := [] } true popped.1 popped.2).owing
        c.system.unhandled := by
  obtain ⟨hframes, hnot⟩ := next?_eq_none hnone
  obtain ⟨timer, scheduler⟩ := popped
  obtain ⟨-, -, key, htimers⟩ := Scheduler.popDue?_eq_some h.timers hpop
  have hdue : time < timer.due := Scheduler.popDue?_eq_none h.timers hnot (key, timer)
    (htimers ▸ List.mem_cons_self)
  have hdepth := h.depth_eq hframes
  have hnow : max c.system.clock.now timer.due = max time timer.due := by
    have := h.now
    omega
  unfold Delivery.resumed
  rw [arrived_eq hdepth]
  simp only [struck, System.setNow, System.owing, System.enter, doing, if_true, hnow, hdepth,
    List.append_nil]

theorem resumed_scheduler (h : c.Poised time) (hframes : c.frames = []) :
    (c.resumed time).system.scheduler = c.system.scheduler := by
  unfold Delivery.resumed
  rw [arrived_eq (h.depth_eq hframes)]
  rfl

/-- The second portion begins with the timer with which the whole goes on, if there is one. -/
theorem next?_resumed (h : c.Poised time) (hnone : c.next? time = none) :
    c.next? later = ((c.resumed time).next? later).map (·.owing c.system.unhandled) := by
  obtain ⟨hframes, -⟩ := next?_eq_none hnone
  rw [next?_nil hframes, next?_nil (c := c.resumed time) rfl, resumed_scheduler h hframes]
  cases hpop : c.system.scheduler.popDue? later with
  | none => rfl
  | some popped =>
      refine congrArg some ?_
      exact (congrArg (fireTimer · popped.1) (struck_resumed h hnone hpop)).trans
        (fireTimer_owing _ _ _)

/-- It is the same firing. -/
theorem firing?_resumed (h : c.Poised time) (hnone : c.next? time = none) :
    (c.toward later).firing? = ((c.resumed time).toward later).firing? := by
  obtain ⟨hframes, -⟩ := next?_eq_none hnone
  rw [firing?_nil hframes, firing?_nil (c := c.resumed time) rfl, resumed_scheduler h hframes]
  cases hpop : c.system.scheduler.popDue? later with
  | none => rfl
  | some popped =>
      refine congrArg some ?_
      exact (congrArg (firing · popped.1) (struck_resumed h hnone hpop)).trans
        (firing_owing _ _ _)

/-- The second portion goes as the rest of the whole. -/
theorem Course.resume (h : Course later c way e) (hend : e.next? later = none)
    (hc : c.Poised time) (hnone : c.next? time = none) (hle : time ≤ later) :
    ∃ way' e', Course later (c.resumed time) way' e' ∧ e'.next? later = none ∧
      way'.length = way.length ∧
      (way.map (toward · later)).filterMap firing? =
        (way'.map (toward · later)).filterMap firing? ∧
      (e.arrived later).system = (e'.arrived later).system ∧
      (e.arrived later).answer =
        (c.arrived time).answer.bind fun _ => (e'.arrived later).answer := by
  obtain ⟨hframes, -⟩ := next?_eq_none hnone
  have hresumed := hc.resumed hframes hle
  have hdepth := hc.depth_eq hframes
  have hsame : c.next? later = ((c.resumed time).next? later).map (·.owing c.system.unhandled) :=
    next?_resumed hc hnone
  -- The whole does not stop at the earlier time. It differs from the second portion, which begins
  -- with a call of its own, only in the errors that are kept from the first one.
  cases h with
  | refl =>
      refine ⟨[], c.resumed time, .refl _, ?_, rfl, rfl, ?_, ?_⟩
      · rwa [hsame, Option.map_eq_none_iff] at hend
      · rw [arrived_eq hdepth, arrived_eq (hresumed.depth_eq rfl)]
        unfold Delivery.resumed
        rw [arrived_eq hdepth]
        rfl
      · rw [arrived_eq hdepth, arrived_eq hdepth, arrived_eq (hresumed.depth_eq rfl)]
        unfold Delivery.resumed
        rw [arrived_eq hdepth]
        have hall := verdict_append c.system.unhandled []
        rwa [List.append_nil] at hall
  | @next _ x _ way hnext hrest =>
      obtain ⟨c₁, hnext', rfl⟩ := Option.map_eq_some_iff.mp (hsame.symm.trans hnext)
      have hc₁ := (hresumed.next hnext').1
      obtain ⟨way', e', hcourse, rfl, rfl, hfirings⟩ := course_owing _ hrest c₁ rfl hc₁
      have he' := (hcourse.poised hc₁).1
      have hend' : e'.next? later = none := by
        rw [next?_owing _ he', Option.map_eq_none_iff] at hend
        exact hend
      have hdepth' := he'.depth_eq (next?_eq_none hend').1
      refine ⟨c.resumed time :: way', e', .next hnext' hcourse, hend', by simp, ?_, ?_, ?_⟩
      · rw [List.map_cons, List.map_cons, List.filterMap_cons, List.filterMap_cons,
          firing?_resumed hc hnone, hfirings]
      · rw [arrived_eq (show (e'.owing c.system.unhandled).system.depth = 1 from hdepth'),
          arrived_eq hdepth']
        rfl
      · rw [arrived_eq (show (e'.owing c.system.unhandled).system.depth = 1 from hdepth'),
          arrived_eq hdepth', arrived_eq hdepth]
        exact verdict_append _ _

end Delivery

namespace System

open Delivery (Course Poised resumed arrived toward firing? lastSteps)

variable {sys : System} {ms : Nat}

/-- How the call that lets time pass goes. -/
structure Advances (sys : System) (ms : Nat) : Prop where
  now : (sys.advance ms).1.clock.now = sys.clock.now + ms
  /-- The clock never goes back. -/
  monotone : (sys.course ms).Pairwise fun d d' => d.system.clock.now ≤ d'.system.clock.now
  between : ∀ d ∈ sys.course ms, sys.clock.now ≤ d.system.clock.now ∧
    d.system.clock.now ≤ sys.clock.now + ms
  /-- Whatever is due by the end is sent, whenever it has been scheduled, unless it is withdrawn. -/
  sent : ∀ before d after, sys.course ms = before ++ d :: after →
    ∀ entry ∈ d.system.scheduler.timers, entry.2.due ≤ sys.clock.now + ms →
      ∃ d' ∈ d :: after, d'.Sends entry ∨ d'.Withdraws entry.2
  pending : ∀ entry ∈ (sys.advance ms).1.scheduler.timers, sys.clock.now + ms < entry.2.due
  idle : (sys.advance ms).1.Idle

/-- Before any time has passed. -/
theorem Idle.poised (hidle : sys.Idle) (hsimulated : sys.clock.simulated = true) (ms : Nat) :
    (Delivery.doing sys.enter []).Poised (sys.clock.now + ms) :=
  ⟨congrArg (· + 1) hidle.depth, rfl, hidle.timers, hsimulated, Nat.le_add_right _ _⟩

theorem advancing_eq (sys : System) (ms : Nat) :
    sys.advancing ms = (Delivery.doing sys.enter []).toward (sys.clock.now + ms) := rfl

/-- A call that returns has a course until nothing is due. -/
theorem Returns.course (h : sys.Returns ms) : ∃ way e,
    Course (sys.clock.now + ms) (Delivery.doing sys.enter []) way e ∧
      e.next? (sys.clock.now + ms) = none ∧ way.length + 3 ≤ patience :=
  Delivery.course_of_iterate h

section Course

variable {way : List Delivery} {e : Delivery} (hidle : sys.Idle)
  (hsimulated : sys.clock.simulated = true)
  (hcourse : Course (sys.clock.now + ms) (Delivery.doing sys.enter []) way e)
  (hend : e.next? (sys.clock.now + ms) = none) (hlength : way.length + 3 ≤ patience)

include hcourse hend hlength

theorem returns_of_course : sys.Returns ms := by
  rw [Returns, advancing_eq, hcourse.arrives hend hlength]
  rfl

theorem course_eq : sys.course ms =
    way.map (toward · (sys.clock.now + ms)) ++ e.lastSteps (sys.clock.now + ms) :=
  hcourse.passed_eq hend hlength

theorem firings_eq : sys.firings ms =
    (way.map (toward · (sys.clock.now + ms))).filterMap firing? := by
  rw [firings, course_eq hcourse hend hlength, List.filterMap_append,
    Delivery.firings_lastSteps hend, List.append_nil]

include hidle hsimulated

/-- What the call leads to. -/
theorem advance_eq : sys.advance ms =
    ((e.arrived (sys.clock.now + ms)).system, (e.arrived (sys.clock.now + ms)).answer) := by
  have hpoised := (hcourse.poised (hidle.poised hsimulated ms)).1
  have hdepth := hpoised.depth_eq (Delivery.next?_eq_none hend).1
  have harrives := hcourse.arrives hend hlength
  have hrun := Delivery.run_of_iterate (n := patience)
    (c := (Delivery.doing sys.enter []).toward (sys.clock.now + ms)) (by rw [harrives]; rfl)
  rw [harrives] at hrun
  rw [advance, if_pos hsimulated]
  refine Eq.trans hrun ?_
  rw [Delivery.arrived_eq hdepth]

end Course

/-- How the clock goes while time passes, and which timers are sent. -/
theorem Returns.advances (h : sys.Returns ms) (hidle : sys.Idle)
    (hsimulated : sys.clock.simulated = true) : sys.Advances ms := by
  obtain ⟨way, e, hcourse, hend, hlength⟩ := h.course
  have hpoised := hcourse.poised (hidle.poised hsimulated ms)
  obtain ⟨hframes, hpop⟩ := Delivery.next?_eq_none hend
  have hadvance := advance_eq hidle hsimulated hcourse hend hlength
  rw [Delivery.arrived_eq (hpoised.1.depth_eq hframes)] at hadvance
  have hlater : ∀ entry ∈ e.system.scheduler.timers, sys.clock.now + ms < entry.2.due :=
    Scheduler.popDue?_eq_none hpoised.1.timers hpop
  obtain ⟨hpairs, hfirst⟩ := hcourse.monotone (hidle.poised hsimulated ms)
  have hnow : ∀ d ∈ way ++ [e], d.system.clock.now ≤ e.system.clock.now ∧
      d.system.clock.now ≤ sys.clock.now + ms := by
    intro d hd
    rcases List.mem_append.mp hd with hd | hd
    · exact ⟨(List.pairwise_append.mp hpairs).2.2 d hd e (List.mem_singleton_self e),
        (hpoised.2 d hd).now⟩
    · rw [List.mem_singleton.mp hd]
      exact ⟨Nat.le_refl _, hpoised.1.now⟩
  -- what the clock shows on the way, and in the last steps
  have hclocks : (sys.course ms).map (·.system.clock.now) =
      (way ++ [e]).map (·.system.clock.now) ++ [e.system.clock.now, sys.clock.now + ms] := by
    rw [course_eq hcourse hend hlength, List.map_append, List.map_append, List.map_map,
      List.append_assoc]
    rfl
  refine ⟨by rw [hadvance], ?_, fun d hd => ?_, ?_, by rw [hadvance]; exact hlater,
    by rw [hadvance]; exact ⟨rfl, rfl, hpoised.1.timers⟩⟩
  · refine List.pairwise_map.mp (hclocks ▸ List.pairwise_append.mpr ⟨List.pairwise_map.mpr hpairs,
      ?_, ?_⟩)
    · exact List.pairwise_pair.mpr hpoised.1.now
    · intro x hx y hy
      obtain ⟨d, hd, rfl⟩ := List.mem_map.mp hx
      rcases List.mem_pair.mp hy with rfl | rfl
      · exact (hnow d hd).1
      · exact (hnow d hd).2
  · have hshown := List.mem_map_of_mem (f := fun d : Delivery => d.system.clock.now) hd
    rw [hclocks, List.mem_append, List.mem_map, List.mem_pair] at hshown
    rcases hshown with ⟨c, hc, hshown⟩ | hshown | hshown
    · rw [← hshown]
      exact ⟨hfirst c hc, (hnow c hc).2⟩
    · rw [hshown]
      exact ⟨hfirst e (List.mem_append_right _ (List.mem_singleton_self e)), hpoised.1.now⟩
    · rw [hshown]
      exact ⟨Nat.le_add_right _ _, Nat.le_refl _⟩
  · intro before d after hsplit entry hentry hdue
    have hsound : (sys.advancing ms).system.scheduler.Sound := hidle.timers
    obtain ⟨hd, k, hafter, hlast⟩ := Delivery.passed_split hsound hsplit
    rw [hafter]
    refine Delivery.exists_passed hd hentry ?_
    rw [hlast, advancing_eq, hcourse.arrives hend hlength,
      Delivery.arrived_eq (hpoised.1.depth_eq hframes)]
    exact fun hleft => Nat.not_lt.mpr hdue (hlater entry hleft)

/-- To let time pass in two portions is to let it pass at once: the same timers send their events to
the same actors when the clock shows the same, the system is the same in the end, and the caller is
told the first error. -/
theorem advance_add (hidle : sys.Idle) (hsimulated : sys.clock.simulated = true) {a b : Nat}
    (hreturns : sys.Returns (a + b)) :
    sys.Returns a ∧ (sys.advance a).1.Returns b ∧
      sys.firings (a + b) = sys.firings a ++ (sys.advance a).1.firings b ∧
      (sys.advance (a + b)).1 = ((sys.advance a).1.advance b).1 ∧
      (sys.advance (a + b)).2 =
        (sys.advance a).2.bind (fun _ => ((sys.advance a).1.advance b).2) ∧
      sys.Advances (a + b) := by
  obtain ⟨way, e, hcourse, hend, hlength⟩ := hreturns.course
  have hle : sys.clock.now + a ≤ sys.clock.now + (a + b) := by omega
  obtain ⟨way₁, c, way₂, hfirst, hnone, hrest, rfl⟩ := hcourse.cut hend hle
  rw [List.length_append] at hlength
  -- the first portion
  have hlength₁ : way₁.length + 3 ≤ patience := by omega
  have hpoised := (hfirst.poised (hidle.poised hsimulated a)).1
  have hdepth := hpoised.depth_eq (Delivery.next?_eq_none hnone).1
  have hadvance := advance_eq hidle hsimulated hfirst hnone hlength₁
  -- the second portion
  obtain ⟨way', e', hresumed, hend', hway, hfirings, hsystem, hanswer⟩ :=
    hrest.resume hend hpoised hnone hle
  have hidle₁ : (sys.advance a).1.Idle ∧ (sys.advance a).1.clock.simulated = true ∧
      (sys.advance a).1.clock.now + b = sys.clock.now + (a + b) := by
    rw [hadvance, Delivery.arrived_eq hdepth]
    exact ⟨⟨rfl, rfl, hpoised.timers⟩, hpoised.simulated, Nat.add_assoc _ _ _⟩
  have hbegin : c.resumed (sys.clock.now + a) = Delivery.doing (sys.advance a).1.enter [] := by
    rw [hadvance]
    rfl
  rw [← hidle₁.2.2, hbegin] at hresumed
  rw [← hidle₁.2.2] at hend'
  have hlength₂ : way'.length + 3 ≤ patience := by omega
  have hadvance₂ := advance_eq hidle₁.1 hidle₁.2.1 hresumed hend' hlength₂
  rw [hidle₁.2.2] at hadvance₂
  have hwhole := advance_eq hidle hsimulated hcourse hend (by rwa [List.length_append])
  refine ⟨returns_of_course hfirst hnone hlength₁, returns_of_course hresumed hend' hlength₂,
    ?_, ?_, ?_, hreturns.advances hidle hsimulated⟩
  · rw [firings_eq hcourse hend (by rwa [List.length_append]), firings_eq hfirst hnone hlength₁,
      firings_eq hresumed hend' hlength₂, List.map_append, List.filterMap_append,
      hfirst.firings_mono (hidle.poised hsimulated a) hle, hfirings, hidle₁.2.2]
  · rw [hwhole, hadvance₂]
    exact hsystem
  · rw [hwhole, hadvance₂, hadvance]
    exact hanswer

/-! ## A light -/

/-- A light that changes by itself. -/
def lightsJson : Json :=
  .obj [("id", .str "light"), ("initial", .str "green"), ("states", .obj
    [("green", .obj [("after", .obj [("100", .str "yellow")])]),
      ("yellow", .obj [("after", .obj [("50", .str "green")])])])]

def lights : Logic := .machine ((Definition.ofJson lightsJson).toOption.getD default) default

/-- The application has a light made and started, and holds it. -/
def lit : System := (Delivery.startRun lights 9).2.system.hold "light" ⟨0⟩

theorem idle_lit : lit.Idle := by
  have hrun := (Delivery.timed_startRun lights 9).next
    (.arrange _ rfl lit (.of_eq rfl rfl rfl rfl)) fun _ _ => ⟨rfl, rfl, rfl⟩
  exact hrun.idle (Delivery.attuned_done ⟨rfl, rfl, Scheduler.sound_empty⟩) rfl

set_option maxRecDepth 100000 in
/-- The light changes when 100 have passed, and changes again 50 later. -/
theorem light_changes_twice : lit.Idle ∧ lit.clock.simulated = true ∧ lit.Returns (100 + 60) ∧
    (lit.firings (100 + 60)).map (fun f => (f.time, f.timer.id)) =
      [(100, some "chart.after.100.light.green"), (150, some "chart.after.50.light.yellow")] ∧
    lit.firings (100 + 60) = lit.firings 100 ++ (lit.advance 100).1.firings 60 ∧
    (lit.advance (100 + 60)).1 = ((lit.advance 100).1.advance 60).1 := by
  have hframes : (Delivery.step^[25] (lit.advancing (100 + 60))).frames.length = 0 := by
    decide +kernel
  have hframes := List.length_eq_zero_iff.mp hframes
  have hreturns : lit.Returns (100 + 60) := by
    rw [Returns, Delivery.iterate_of_le hframes (by decide)]
    exact hframes
  obtain ⟨-, -, hfirings, hsystem, -⟩ := advance_add idle_lit rfl hreturns
  exact ⟨idle_lit, rfl, hreturns, by decide +kernel, hfirings, hsystem⟩

end System

end Statechart
