import Statechart.Proofs.Delayed
import Statechart.Proofs.Reacting

/-!
# Delayed transitions follow their states

What the last effect that is outstanding makes of a timer, and without one whether the timer is
pending, always agrees with whether its state is active (`Delivery.Minds`). So when no call is in
progress, the timers of an actor's delayed transitions are those of the states that are active,
except for those that have been sent (`Delivery.delays_follow_states`).
-/

namespace Statechart

/-- An actor that has just been made from a machine, and not from a stored snapshot. -/
structure Actor.Fresh (m : Machine) (a : Actor) : Prop where
  logic : a.logic = .machine m.definition m.implementations
  status : a.status = .notStarted
  first : ∃ make scope scope' input s, scope.effects = [] ∧
    Machine.initialState { m with spawn := make } scope input = (scope', .ok s) ∧
      a.snapshot = .machine s ∧ a.pending = scope'.effects

/-- An actor that is made without a stored snapshot. -/
theorem fresh_of_make {m : Machine} {depth : Nat} {sys sys' : System} {spec : ActorSpec}
    {c : Session} (hspec : spec.snapshot = none)
    (h : make depth sys (.machine m.definition m.implementations) spec = (sys', .ok c)) :
    ∃ a, sys'.actor? c = some a ∧ a.Fresh m := by
  cases depth with
  | zero => cases h
  | succ depth =>
      cases hfirst : spec.first (make depth) (spec.scope sys)
          (.machine m.definition m.implementations) with
      | mk scope made =>
          cases made with
          | error e => cases (make_error hfirst).symm.trans h
          | ok snapshot =>
              cases (make_ok hfirst).symm.trans h
              refine ⟨_, (System.actor?_register _ _ _).trans (if_pos rfl), rfl, rfl, ?_⟩
              -- without a stored snapshot the first one is the initial one
              rw [ActorSpec.first, hspec] at hfirst
              cases hrun : Machine.initialState { m with spawn := make depth } (spec.scope sys)
                  spec.input with
              | mk scope' result =>
                  have hinitial : (Logic.machine m.definition m.implementations).initialSnapshot
                      (make depth) (spec.scope sys) spec.input =
                        (scope', result.map Snapshot.machine) := by
                    rw [Logic.initialSnapshot, hrun]
                  cases result with
                  | error e => cases hinitial.symm.trans hfirst
                  | ok s =>
                      cases hinitial.symm.trans hfirst
                      exact ⟨_, _, _, _, s, rfl, hrun, rfl, rfl⟩

/-! ## Frames and timers -/

section Frames

variable {sys : System} {f : Frame} {e : Effect} {rest : List Effect} {timer : Timer}
  {p : Session} {id : String}

/-- A frame that spares an actor withdraws none of its timers. -/
theorem Frame.Spares.not_withdraws (h : f.Spares p) (howner : timer.owner = p) :
    ¬ f.Withdraws timer := by
  intro hwithdraws
  unfold Frame.Withdraws at hwithdraws
  split at hwithdraws
  · rw [hwithdraws.1] at howner
    cases h.tasks.symm.trans (if_pos howner)
  · rw [hwithdraws.1] at howner
    cases h.tasks.symm.trans (if_pos howner)
  · exact h.retire (by rw [← howner, hwithdraws])
  · exact hwithdraws

/-- It sets none either. -/
theorem Frame.Spares.not_sets (h : f.Spares p) (howner : timer.owner = p) :
    ¬ f.Sets sys timer := by
  intro hsets
  unfold Frame.Sets at hsets
  split at hsets
  · rw [hsets] at howner
    cases h.tasks.symm.trans (if_pos howner)
  · exact hsets

/-- An effect withdraws the timer of an id if it is about that timer. -/
theorem withdraws_iff (hcalled : timer.IsCalled p id) :
    (Frame.effects p (e :: rest)).Withdraws timer ↔ e.about? id ≠ none := by
  have hid : ∀ own, timer.IsCalled p own ↔ own = id := fun own =>
    ⟨fun h => Option.some.inj (h.2.symm.trans hcalled.2), fun h => h ▸ hcalled⟩
  unfold Frame.Withdraws Effect.about?
  cases e with
  | send target event ms own => cases ms <;> cases own <;> simp [hid]
  | cancel own => simp [hid]
  | _ => simp

theorem about_of_sets (hcalled : timer.IsCalled p id)
    (h : (Frame.effects p (e :: rest)).Sets sys timer) : ∃ ms, e.about? id = some (some ms) := by
  unfold Frame.Sets at h
  split at h
  · rename_i hframe
    cases hframe
    subst h
    obtain ⟨-, hid⟩ := hcalled
    cases hid
    exact ⟨_, if_pos rfl⟩
  · exact h.elim

end Frames

namespace Delivery

variable {d d' y first : Delivery} {past : List Delivery} {entry : Scheduler.Key × Timer}
  {p : Session} {id : String}

/-! ## What happens to timers -/

/-- A timer stays until it is sent or withdrawn. -/
theorem Happens.timer (h : d.Happens d') (hapart : d.Apart d') (hd : d.Attuned)
    (hentry : entry ∈ d.system.scheduler.timers) :
    d.Sends entry ∨ d.Withdraws entry.2 ∨ entry ∈ d'.system.scheduler.timers := by
  by_cases hidle : d.frames = []
  · rw [(h.outside hapart hidle).1]
    exact .inr (.inr hentry)
  · rw [h.eq_step hidle]
    exact step_timer hd.timers hentry

/-- A timer that there is afterwards has just been set, or it was there and is not withdrawn. -/
theorem Happens.mem_timers (h : d.Happens d') (hapart : d.Apart d') (hd : d.Attuned)
    (hentry : entry ∈ d'.system.scheduler.timers) :
    d.Sets entry.2 ∨ entry ∈ d.system.scheduler.timers ∧ ¬ d.Withdraws entry.2 := by
  by_cases hidle : d.frames = []
  · rw [(h.outside hapart hidle).1] at hentry
    refine .inr ⟨hentry, ?_⟩
    rintro ⟨top, htop, -⟩
    rw [hidle] at htop
    cases htop
  · rw [h.eq_step hidle] at hentry
    exact mem_step hd.timers hentry

/-- To carry out an effect that sets a timer sets it. -/
theorem step_sets {e : Effect} {rest : List Effect} {n : Nat} (hd : d.Attuned)
    (htop : d.frames.head? = some (.effects p (e :: rest))) (he : e.about? id = some (some n)) :
    ∃ entry ∈ d.step.system.scheduler.timers, d.Sets entry.2 ∧ entry.2.IsCalled p id ∧
      entry.2.due = d.system.clock.now + n := by
  cases e with
  | send target event ms own =>
      cases ms with
      | none => cases he
      | some ms =>
          cases own with
          | none => cases he
          | some own =>
              obtain ⟨rfl, hmade⟩ := Option.ite_none_right_eq_some.mp he
              cases hmade
              obtain ⟨below, hframes⟩ := List.head?_eq_some_iff.mp htop
              generalize hafter : d.step.system.scheduler = after
              cases hafter ▸ retimes_step d with
              | same hinner => cases hinner _ htop
              | sent hfire _ => cases hframes.symm.trans hfire
              | touched htouched =>
                  cases hframes.symm.trans htouched
                  exact ⟨_, (Scheduler.mem_schedule_iff hd.timers).mpr (.inl rfl),
                    ⟨_, htop, rfl⟩, ⟨rfl, rfl⟩, rfl⟩
  | cancel own =>
      obtain ⟨-, hmade⟩ := Option.ite_none_right_eq_some.mp he
      cases hmade
  | _ => cases he

/-! ## Owners -/

/-- Only actors that have begun have timers. -/
def Owned (d : Delivery) : Prop :=
  ∀ entry ∈ d.system.scheduler.timers, (d.system.actor entry.2.owner).status ≠ .notStarted

theorem Owned.next (howned : d.Owned) (h : d.Happens d') (hapart : d.Apart d') (hd : d.Sound)
    (hattuned : d.Attuned) : d'.Owned := by
  intro entry hentry
  refine h.opened hd ?_
  rcases h.mem_timers hapart hattuned hentry with ⟨top, htop, hsets⟩ | ⟨hold, -⟩
  · unfold Frame.Sets at hsets
    split at hsets
    · rw [hsets]
      exact hd.opened htop
    · exact hsets.elim
  · exact howned entry hold

theorem Timed.owned (h : first.Timed past d) (hreached : Reached first) (hattuned : first.Attuned)
    (howned : first.Owned) : d.Owned := by
  induction h with
  | refl => exact howned
  | next h hnext hapart ih =>
      exact ih.next hnext hapart (h.run.reached hreached).sound (h.attuned hattuned)

/-! ## What is kept -/

/-- After a state has been entered for the last time, its timer was set, to be sent some time from
then. It is still there, or it has been sent since. -/
inductive Lasts (past : List Delivery) (d : Delivery) (p : Session) (id : String) (st n : Nat) :
    Prop
  | intro {later earlier : List Delivery} {y : Delivery} {entry : Scheduler.Key × Timer}
      (hpast : past = later ++ y :: earlier) (hstays : ∀ x ∈ later, ¬ x.Enters p st)
      (hsets : y.Sets entry.2) (hcalled : entry.2.IsCalled p id)
      (hdue : entry.2.due = y.system.clock.now + n)
      (hlasts : entry ∈ d.system.scheduler.timers ∨ ∃ x ∈ later, x.Sends entry)

/-- What is outstanding about the timer of an id, and without that the timer itself, agrees with
whether its state is active. -/
structure Minds (id : String) (holder : Option Nat) (delay : Delay) (p : Session)
    (past : List Delivery) (d : Delivery) (s : MachineSnapshot) : Prop where
  armed : Effect.standing id (d.todo p) = none →
    ∀ entry ∈ d.system.scheduler.timers, entry.2.IsCalled p id →
      ∃ st, holder = some st ∧ st ∈ s.config
  asked : ∀ ms, Effect.standing id (d.todo p) = some (some ms) →
    ∃ st, holder = some st ∧ st ∈ s.config
  set : ∀ st n, holder = some st → delay = .ms n → st ∈ s.config →
    Effect.standing id (d.todo p) = some (some n) ∨
      Effect.standing id (d.todo p) = none ∧ Lasts past d p id st n

variable {holder : Option Nat} {delay : Delay} {s s' : MachineSnapshot} {st n : Nat}
  {b b' : Actor} {m : Machine}

/-- What has been set stays or is sent, as long as nobody withdraws it. -/
theorem Lasts.next (h : Lasts past d p id st n) (hnext : d.Happens d') (hapart : d.Apart d')
    (hd : d.Attuned) (henters : ¬ d.Enters p st)
    (hkeeps : ∀ timer : Timer, timer.IsCalled p id → ¬ d.Withdraws timer) :
    Lasts (d :: past) d' p id st n := by
  obtain ⟨hpast, hstays, hsets, hcalled, hdue, hlasts⟩ := h
  refine ⟨by rw [hpast, List.cons_append], ?_, hsets, hcalled, hdue, ?_⟩
  · exact List.forall_mem_cons.mpr ⟨henters, hstays⟩
  · rcases hlasts with hthere | ⟨x, hx, hsends⟩
    · rcases hnext.timer hapart hd hthere with hsends | hwithdraws | hthere
      · exact .inr ⟨d, List.mem_cons_self, hsends⟩
      · exact absurd hwithdraws (hkeeps _ hcalled)
      · exact .inl hthere
    · exact .inr ⟨x, List.mem_cons_of_mem _ hx, hsends⟩

/-- When the top frame spares an actor, its timers are neither set nor withdrawn. -/
theorem spares_timers (htop : ∀ f, d.frames.head? = some f → f.Spares p) {timer : Timer}
    (hcalled : timer.IsCalled p id) : ¬ d.Withdraws timer ∧ ¬ d.Sets timer := by
  refine ⟨?_, ?_⟩
  · rintro ⟨top, hhead, hwithdraws⟩
    exact (htop top hhead).not_withdraws hcalled.1 hwithdraws
  · rintro ⟨top, hhead, hsets⟩
    exact (htop top hhead).not_sets hcalled.1 hsets

/-- Without a step of its machine an actor enters no state. -/
theorem not_enters (hidle : ∀ event, ¬ d.Reacting p event) : ¬ d.Enters p st := by
  rintro ⟨-, hreacting, -⟩
  exact hidle _ hreacting

/-- Nothing happens about the timer. -/
theorem Minds.kept (h : Minds id holder delay p past d s) (hnext : d.Happens d')
    (hapart : d.Apart d') (hd : d.Attuned) (hidle : ∀ event, ¬ d.Reacting p event)
    (htimers : ∀ timer : Timer, timer.IsCalled p id → ¬ d.Withdraws timer ∧ ¬ d.Sets timer)
    (hstanding : Effect.standing id (d'.todo p) = Effect.standing id (d.todo p)) :
    Minds id holder delay p (d :: past) d' s where
  armed hnone entry hentry hcalled := by
    rcases hnext.mem_timers hapart hd hentry with hsets | ⟨hold, -⟩
    · exact absurd hsets (htimers _ hcalled).2
    · exact h.armed (hstanding ▸ hnone) entry hold hcalled
  asked ms hset := h.asked ms (hstanding ▸ hset)
  set st n hst hdelay hactive := by
    rw [hstanding]
    rcases h.set st n hst hdelay hactive with hset | ⟨hnone, hlasts⟩
    · exact .inl hset
    · exact .inr ⟨hnone, hlasts.next hnext hapart hd (not_enters hidle) fun _ hcalled =>
        (htimers _ hcalled).1⟩

/-- To carry out an effect that is not about the timer leaves it alone. -/
theorem untouched_of_about_none {e : Effect} {rest : List Effect}
    (htop : d.frames.head? = some (.effects p (e :: rest))) (habout : e.about? id = none)
    {timer : Timer} (hcalled : timer.IsCalled p id) : ¬ d.Withdraws timer ∧ ¬ d.Sets timer := by
  constructor
  · rintro ⟨top, hhead, hwithdraws⟩
    cases htop.symm.trans hhead
    exact (withdraws_iff hcalled).mp hwithdraws habout
  · rintro ⟨top, hhead, hsets⟩
    cases htop.symm.trans hhead
    obtain ⟨ms, hms⟩ := about_of_sets hcalled hsets
    cases habout.symm.trans hms

/-- After an effect about the timer has been carried out, a timer of the id is the one that it has
set. -/
theorem set_of_about {e : Effect} {rest : List Effect} {v : Option Nat} (hnext : d.Happens d')
    (hapart : d.Apart d') (hd : d.Attuned)
    (htop : d.frames.head? = some (.effects p (e :: rest))) (habout : e.about? id = some v)
    (hentry : entry ∈ d'.system.scheduler.timers) (hcalled : entry.2.IsCalled p id) :
    ∃ ms, v = some ms := by
  rcases hnext.mem_timers hapart hd hentry with ⟨top, hhead, hsets⟩ | ⟨-, hnot⟩
  · cases htop.symm.trans hhead
    obtain ⟨ms, hms⟩ := about_of_sets hcalled hsets
    exact ⟨ms, Option.some.inj (habout.symm.trans hms)⟩
  · refine absurd ⟨_, htop, (withdraws_iff hcalled).mpr ?_⟩ hnot
    rw [habout]
    exact Option.some_ne_none v

/-- A timer that has just been set lasts. -/
theorem lasts_of_about {e : Effect} {rest : List Effect} (hnext : d.Happens d') (hd : d.Attuned)
    (htop : d.frames.head? = some (.effects p (e :: rest))) (habout : e.about? id = some (some n)) :
    Lasts (d :: past) d' p id st n := by
  have hbusy : d.frames ≠ [] := by
    rintro hnil
    rw [hnil] at htop
    cases htop
  obtain ⟨entry, hthere, hsets, hcalled, hdue⟩ := step_sets hd htop habout
  rw [← hnext.eq_step hbusy] at hthere
  exact .intro (List.nil_append (d :: past)).symm (by simp) hsets hcalled hdue (.inl hthere)

/-- The first effect that is outstanding is carried out. -/
theorem Minds.carried {e : Effect} {rest : List Effect} (h : Minds id holder delay p past d s)
    (hnext : d.Happens d') (hapart : d.Apart d') (hd : d.Attuned)
    (hidle : ∀ event, ¬ d.Reacting p event)
    (htop : d.frames.head? = some (.effects p (e :: rest))) (htodo : d.todo p = e :: d'.todo p) :
    Minds id holder delay p (d :: past) d' s := by
  have hstanding : Effect.standing id (d.todo p) =
      (Effect.standing id (d'.todo p)).or (e.about? id) := by
    rw [htodo, Effect.standing_cons]
  -- only an effect about the timer moves what is known from the effects to the timer
  cases habout : e.about? id with
  | none =>
      refine h.kept hnext hapart hd hidle (fun _ => untouched_of_about_none htop habout) ?_
      rw [hstanding, habout, Option.or_none]
  | some v =>
      rw [habout] at hstanding
      refine ⟨fun hnone entry hentry hcalled => ?_, fun ms hset => ?_,
        fun st n hst hdelay hactive => ?_⟩
      · obtain ⟨ms, rfl⟩ := set_of_about hnext hapart hd htop habout hentry hcalled
        rw [hnone, Option.none_or] at hstanding
        exact h.asked ms hstanding
      · exact h.asked ms (by rw [hstanding, hset]; rfl)
      · -- while the effect was outstanding, something was
        obtain ⟨u, hu⟩ : ∃ u, Effect.standing id (d.todo p) = some u := by
          rw [hstanding]
          cases Effect.standing id (d'.todo p) <;> exact ⟨_, rfl⟩
        have hsome : Effect.standing id (d.todo p) = some (some n) := by
          rcases h.set st n hst hdelay hactive with hset | ⟨hnone, -⟩
          · exact hset
          · cases hnone.symm.trans hu
        rw [hsome] at hstanding
        cases hafter : Effect.standing id (d'.todo p) with
        | some u =>
            rw [hafter, Option.some_or] at hstanding
            exact .inl hstanding.symm
        | none =>
            rw [hafter, Option.none_or] at hstanding
            cases hstanding
            exact .inr ⟨rfl, lasts_of_about hnext hd htop habout⟩

/-- The machine takes an event. -/
theorem Minds.reacted {scope : Scope} {event : Event} (ht : m.Tends id holder delay)
    (h : Minds id holder delay p past d s) (hnext : d.Happens d') (hapart : d.Apart d')
    (hd : d.Attuned) (htop : d.frames.head? = some (.drain p))
    (hmachine : d.machine? p = some (m, s)) (hreacting : d.Reacting p event)
    (hrun : m.transition (d.stepScope p) s event = (scope, .ok s')) (hnothing : d.todo p = [])
    (htodo : d'.todo p = scope.effects) (hactive : s'.status = .active) :
    Minds id holder delay p (d :: past) d' s' := by
  have hold : s.status = .active := by
    have hold := hreacting.active
    rw [machine?] at hmachine
    split at hmachine <;> cases hmachine
    rename_i hs
    rwa [hs] at hold
  obtain ⟨w, hw, heffects, hconfig, hminds⟩ := Machine.transition_minds ht rfl hold hrun hactive
  have hstanding : Effect.standing id (d'.todo p) = w.standing id := by
    rw [htodo, heffects]
    rfl
  have hnone : Effect.standing id (d.todo p) = none := by rw [hnothing]; rfl
  have htimers : ∀ timer : Timer, timer.IsCalled p id → ¬ d.Withdraws timer ∧ ¬ d.Sets timer :=
    fun timer hcalled => spares_timers (fun f hf => by
      cases htop.symm.trans hf
      exact ⟨rfl, fun heq => by cases heq⟩) hcalled
  refine ⟨fun hnext' entry hentry hcalled => ?_, fun ms hset => ?_,
    fun st n hst hdelay hthere => ?_⟩
  · rcases hnext.mem_timers hapart hd hentry with hsets | ⟨hentry, -⟩
    · exact absurd hsets (htimers _ hcalled).2
    · obtain ⟨st, hst, hbefore⟩ := h.armed hnone entry hentry hcalled
      exact ⟨st, hst, hconfig ▸ hminds.stays (hstanding ▸ hnext') st hst hbefore⟩
  · rw [hconfig]
    exact hminds.active ms (hstanding ▸ hset)
  · rw [hconfig] at hthere
    rw [hstanding]
    rcases hminds.set st n hst hdelay hthere with hset | ⟨hnothing', hbefore, hentered⟩
    · exact .inl hset
    · refine .inr ⟨hnothing', ?_⟩
      rcases h.set st n hst hdelay hbefore with hset | ⟨-, hlasts⟩
      · cases hnone.symm.trans hset
      · refine hlasts.next hnext hapart hd ?_ fun timer hcalled => (htimers timer hcalled).1
        -- the step that comes next is this one
        rintro ⟨hmachine', hreacting', hw', hentered'⟩
        cases hmachine.symm.trans hmachine'
        cases hreacting.taking.symm.trans hreacting'.taking
        cases hw.symm.trans hw'
        exact hentered hentered'

/-- A machine that begins has no timers yet. -/
theorem Minds.start {scope scope' : Scope} {input : Json} (ht : m.Tends id holder delay)
    (hscope : scope.effects = []) (hrun : m.initialState scope input = (scope', .ok s))
    (hactive : s.status = .active) (htodo : d.todo p = scope'.effects)
    (hnone : ∀ entry ∈ d.system.scheduler.timers, entry.2.owner ≠ p) :
    Minds id holder delay p past d s := by
  obtain ⟨w, heffects, hconfig, hminds⟩ := Machine.initialState_minds ht hscope hrun hactive
  have hstanding : Effect.standing id (d.todo p) = w.standing id := by
    rw [htodo, heffects]
    rfl
  refine ⟨fun _ entry hentry hcalled => absurd hcalled.1 (hnone entry hentry), fun ms hset => ?_,
    fun st n hst hdelay hthere => ?_⟩
  · rw [hconfig]
    exact hminds.active ms (hstanding ▸ hset)
  · rw [hconfig] at hthere
    rw [hstanding]
    rcases hminds.set st n hst hdelay hthere with hset | ⟨-, hbefore, -⟩
    · exact .inl hset
    · exact absurd hbefore (NodeSet.not_mem_empty st)

/-! ## Runs -/

/-- What holds of the actor of a machine as long as it runs, about the timer of an id. -/
theorem Timed.minds (before : List Delivery) {after : List Delivery} {a : Actor}
    (hreached : Reached y) (hattuned : y.Attuned) (howned : y.Owned)
    (ha : y.system.actor? p = some a) (hfresh : a.Fresh m) (ht : m.Tends id holder delay)
    (h : y.Timed after d) :
    ∃ b, d.system.actor? p = some b ∧ b.logic = .machine m.definition m.implementations ∧
      b.Primed ∧ (b.status ≠ .stopped → ∀ s, b.snapshot = .machine s → s.status = .active →
        Minds id holder delay p (after ++ before) d s) := by
  -- The invariant is about active snapshots only: an actor that is done or has failed gets no new
  -- effects, and what is still outstanding then need not agree with its states.
  induction h with
  | refl =>
      obtain ⟨make, scope, scope', input, s, hscope, hrun, hs, hpending⟩ := hfresh.first
      refine ⟨a, ha, hfresh.logic, fun _ hrunning => ?_, fun _ s' hs' hactive => ?_⟩
      · cases hfresh.status.symm.trans hrunning
      · cases hs.symm.trans hs'
        refine Minds.start (ht.respawn make) hscope hrun hactive ?_ fun entry hentry howner => ?_
        -- before the actor begins no frame carries out its effects, they all wait with it
        · have hnone : outstanding p y.frames = [] := by
            refine outstanding_eq_nil fun f hf hstage => ?_
            obtain ⟨b, hb, hopened⟩ := hreached.sound.begun hf hstage
            cases ha.symm.trans hb
            exact hopened hfresh.status
          rw [todo, hnone, System.actor_eq ha, hpending]
          rfl
        · refine howned entry hentry ?_
          rw [howner, System.actor_eq ha]
          exact hfresh.status
  | @next after d d' h hnext hapart ih =>
      obtain ⟨b, hb, hlogic, hprimed, hminds⟩ := ih
      have hd := (h.run.reached hreached).sound
      have hattuned := h.attuned hattuned
      obtain ⟨b', hb', hlogic', hopen, hprimed', hworks⟩ := hnext.works hd hb hlogic hprimed
      refine ⟨b', hb', hlogic'.trans hlogic, hprimed', fun hrunning s' hs' hactive => ?_⟩
      have hminds := hminds (hopen hrunning)
      cases hworks with
      | kept hidle htop hsnapshot htodo =>
          exact (hminds s' (hsnapshot ▸ hs') hactive).kept hnext hapart hattuned hidle
            (fun timer hcalled => spares_timers htop hcalled) (by rw [htodo])
      | carried hidle htop hsnapshot htodo =>
          exact (hminds s' (hsnapshot ▸ hs') hactive).carried hnext hapart hattuned hidle htop htodo
      | reacted htop hmachine hreacting hrun hsnapshot hnothing htodo =>
          obtain ⟨s, hs, hmachine'⟩ := machine?_eq hd hb hlogic
          cases hmachine.symm.trans hmachine'
          cases hs'.symm.trans hsnapshot
          have hactive' := hreacting.active
          rw [System.actor_eq hb, hs] at hactive'
          exact (hminds _ hs hactive').reacted (ht.respawn spawn) hnext hapart hattuned htop
            hmachine hreacting hrun hnothing htodo hactive
      | ended hover =>
          rcases hover with hstopped | hdone
          · exact absurd hstopped hrunning
          · rw [hs'] at hdone
            exact absurd hactive hdone

/-- The timers of an actor's delayed transitions are those of the states that are active, but for
those that have been sent. -/
structure FollowStates (m : Machine) (past : List Delivery) (d : Delivery) (p : Session)
    (s : MachineSnapshot) : Prop where
  active : ∀ entry ∈ d.system.scheduler.timers, ∀ id, entry.2.IsCalled p id →
    Definition.IsAfterId id → ∃ st ∈ s.config, ∃ key ∈ m.definition.afterKeys st,
      id = Definition.afterEvent key (m.definition.node st).id
  unique : ∀ entry ∈ d.system.scheduler.timers, ∀ entry' ∈ d.system.scheduler.timers, ∀ id,
    entry.2.IsCalled p id → entry'.2.IsCalled p id → entry = entry'
  lasts : ∀ st ∈ s.config, ∀ key ∈ m.definition.afterKeys st, ∀ n, Delay.parse key = .ms n →
    Lasts past d p (Definition.afterEvent key (m.definition.node st).id) st n

/-- Whatever happens in a system that begins without actors and timers: when no call is in progress,
an actor that was made from a machine, runs and is active has a timer for a delayed transition only
if the state of that transition is active, and one at most. For every active state and every delay
in milliseconds the timer was set when the effects of the last entry of the state were carried out,
and it is still there or has been sent since. -/
theorem delays_follow_states {raw : MachineConfig} {sys : System} {a : Actor}
    (hbuild : Definition.build raw = .ok m.definition) (hundisturbed : m.Undisturbed)
    (hnil : sys.actors = []) (hidle : sys.Idle) (hnone : sys.scheduler.timers = [])
    (hrun : (done sys).Timed past d) (hy : y ∈ d :: past) (ha : y.system.actor? p = some a)
    (hfresh : a.Fresh m) (hdone : d.frames = []) (hb : d.system.actor? p = some b)
    (hrunning : b.status = .running) (hs : b.snapshot = .machine s) (hactive : s.status = .active) :
    FollowStates m past d p s := by
  obtain ⟨before, after, hbefore, hafter, rfl⟩ := hrun.split hy
  have hreached : Reached (done sys) := .fresh sys hnil
  have hattuned := attuned_done hidle
  have howned : (done sys).Owned := fun entry hentry => by
    rw [done, hnone] at hentry
    cases hentry
  have hd := (hrun.run.reached hreached).sound
  have hminds : ∀ {id holder delay}, m.Tends id holder delay →
      b.Primed ∧ Minds id holder delay p (after ++ before) d s := by
    intro id holder delay ht
    obtain ⟨b', hb', -, hprimed, hminds⟩ := hafter.minds before
      (hbefore.run.reached hreached) (hbefore.attuned hattuned)
      (hbefore.owned hreached hattuned howned) ha hfresh ht
    cases hb.symm.trans hb'
    exact ⟨hprimed, hminds (by simp [hrunning]) s hs hactive⟩
  -- nothing is outstanding
  have hstanding : ∀ {id}, b.Primed → Effect.standing id (d.todo p) = none := by
    intro id hprimed
    have hpending : b.pending = [] := by
      by_contra hpending
      obtain ⟨event, hhead, -⟩ := hprimed hpending hrunning
      rw [(hd.settled hdone hb).2 hrunning] at hhead
      cases hhead
    rw [todo, hdone, System.actor_eq hb, hpending]
    rfl
  have hdelayed := Definition.delayed_of_build hbuild
  refine ⟨fun entry hentry id hcalled hid => ?_, fun entry hentry entry' hentry' id hcalled
    hcalled' => (hrun.idle hattuned hdone).timers.unique hentry hentry' hcalled hcalled',
    fun st hst key hkey n hn => ?_⟩
  -- an id that belongs to no state is never set, which is `Tends` without a holder
  · by_cases hknown : ∃ st, ∃ key ∈ m.definition.afterKeys st,
        id = Definition.afterEvent key (m.definition.node st).id
    · obtain ⟨st, key, hkey, rfl⟩ := hknown
      obtain ⟨hprimed, hminds⟩ := hminds (hundisturbed.tends hdelayed hkey)
      obtain ⟨st', hst', hthere⟩ := hminds.armed (hstanding hprimed) entry hentry hcalled
      cases hst'
      exact ⟨st, hthere, key, hkey, rfl⟩
    · obtain ⟨hprimed, hminds⟩ := hminds (hundisturbed.tends_none hid
        (fun st key hkey heq => hknown ⟨st, key, hkey, heq⟩) (.ms 0))
      obtain ⟨st, hno, -⟩ := hminds.armed (hstanding hprimed) entry hentry hcalled
      cases hno
  · obtain ⟨hprimed, hminds⟩ := hminds (hundisturbed.tends hdelayed hkey)
    rcases hminds.set st n rfl hn hst with hset | ⟨-, hlasts⟩
    · cases (hstanding hprimed).symm.trans hset
    · exact hlasts

/-- A lamp that goes out by itself. -/
def stairwellJson : Json :=
  .obj [("id", .str "lamp"), ("initial", .str "off"), ("states", .obj
    [("off", .obj [("on", .obj [("PRESS", .str "on")])]),
      ("on", .obj [("after", .obj [("200", .str "off")])])])]

def stairwell : Machine where
  definition := (Definition.ofJson stairwellJson).toOption.getD default
  implementations := default
  spawn := spawn

set_option maxRecDepth 100000 in
theorem undisturbed_stairwell : stairwell.Undisturbed := by
  have hcases : ∀ st, st = 0 ∨ st = 1 ∨ st = 2 ∨ 3 ≤ st := by omega
  have hnode : ∀ st, 3 ≤ st → stairwell.definition.node st = default := fun st hst =>
    Definition.node_of_size_le (show stairwell.definition.nodes.size ≤ st from hst)
  have hlit : "200" ∈ stairwell.definition.afterKeys 2 := List.mem_singleton.mpr rfl
  -- three states and two transitions, and nothing beyond
  refine ⟨fun st key hkey => ?_, fun st action haction id _ _ => ?_,
    fun st action haction id _ _ => ?_, fun t action haction => ?_⟩
  · rcases hcases st with rfl | rfl | rfl | hst
    · cases hkey
    · cases hkey
    · rw [List.mem_singleton.mp hkey]
      decide
    · rw [Definition.afterKeys, List.getElem?_eq_none hst] at hkey
      cases hkey
  · rcases hcases st with rfl | rfl | rfl | hst
    · cases haction
    · cases haction
    · exact ⟨"200", hlit, List.mem_singleton.mp haction⟩
    · rw [hnode st hst] at haction
      cases haction
  · rcases hcases st with rfl | rfl | rfl | hst
    · cases haction
    · cases haction
    · exact ⟨"200", hlit, List.mem_singleton.mp haction⟩
    · rw [hnode st hst] at haction
      cases haction
  · rcases (by omega : t = 0 ∨ t = 1 ∨ 2 ≤ t) with rfl | rfl | ht
    · cases haction
    · cases haction
    · rw [Definition.transition, Array.getElem?_eq_none ht] at haction
      cases haction

/-- What has been passed stays passed. -/
theorem subset_goOn (n : Nat) (run : List Delivery × Delivery) : run.1 ⊆ (goOn n run).1 := by
  induction n generalizing run with
  | zero => exact List.Subset.refl _
  | succ n ih => exact fun x hx => ih (run.2 :: run.1, run.2.step) (List.mem_cons_of_mem _ hx)

/-- The actor is passed as it was made. -/
theorem made_mem_startRun (logic : Logic) (n : Nat) :
    done (spawn {} logic {}).1 ∈ (startRun logic n).1 := subset_goOn n _ List.mem_cons_self

/-- The application has a lamp made and started. -/
def lampStarted : List Delivery × Delivery :=
  startRun (.machine stairwell.definition stairwell.implementations) 9

/-- It presses the lamp. -/
def lampPressed : List Delivery × Delivery :=
  (lampStarted.2 :: lampStarted.1, call lampStarted.2.system ⟨0⟩ (.send (.named "PRESS")))

def lampLit : List Delivery × Delivery := goOn 20 lampPressed

set_option maxRecDepth 100000 in
/-- The lamp that has been pressed is on, and has a timer to go out. -/
theorem pressed_lamp_goes_out : ∃ b s, lampLit.2.system.actor? ⟨0⟩ = some b ∧
    b.snapshot = .machine s ∧ s.config.toList = [0, 2] ∧
    lampLit.2.system.scheduler.timers.map (fun entry => (entry.2.due, entry.2.id)) =
      [(200, some "chart.after.200.lamp.on")] ∧
    FollowStates stairwell lampLit.1 lampLit.2 ⟨0⟩ s := by
  have hread : (Definition.ofJson (L := Logic) stairwellJson).isOk = true := rfl
  obtain ⟨raw, -, hbuild⟩ := Definition.exists_build (ok_of_isOk hread)
  have hidle : System.Idle {} := ⟨rfl, rfl, Scheduler.sound_empty⟩
  -- the run, and the lamp as it was made
  have hstarted : (done {}).Timed lampStarted.1 lampStarted.2 := timed_startRun _ 9
  have hrun : (done {}).Timed lampLit.1 lampLit.2 :=
    (hstarted.call (attuned_done hidle) rfl ⟨0⟩ (.send (.named "PRESS"))).goOn 20
  obtain ⟨a, ha, hfresh⟩ := @fresh_of_make stairwell nesting {} _ {} ⟨0⟩ rfl rfl
  have hy : done (spawn {} (.machine stairwell.definition stairwell.implementations) {}).1 ∈
      lampLit.2 :: lampLit.1 := by
    have hpassed : lampPressed.1 ⊆ lampLit.1 := subset_goOn 20 lampPressed
    exact List.mem_cons_of_mem _ (hpassed (List.mem_cons_of_mem _ (made_mem_startRun _ 9)))
  -- where it has come to
  have hdone : lampLit.2.frames = [] := List.isEmpty_iff.mp (by decide +kernel)
  obtain ⟨b, hb⟩ : ∃ b, lampLit.2.system.actor? ⟨0⟩ = some b :=
    Option.isSome_iff_exists.mp (by decide +kernel)
  have hrunning : (lampLit.2.system.actor ⟨0⟩).status = .running := by decide +kernel
  obtain ⟨⟨m, s⟩, hmachine, hconfig, hactive⟩ : ∃ x ∈ lampLit.2.machine? ⟨0⟩,
      x.2.config.toList = [0, 2] ∧ x.2.status = .active := by
    decide +kernel
  have hs : b.snapshot = .machine s := snapshot_of_machine? hb hmachine
  rw [System.actor_eq hb] at hrunning
  exact ⟨b, s, hb, hs, hconfig, by decide +kernel, delays_follow_states hbuild
    undisturbed_stairwell rfl hidle rfl hrun hy ha hfresh hdone hb hrunning hs hactive⟩

end Delivery

end Statechart
