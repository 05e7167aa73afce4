import Statechart.Proofs.Hearing

/-!
# The protocol of observers

An observer hears of every snapshot that its actor is given while it follows it, and then once how
the actor has ended (`Delivery.observer_protocol`). What it has heard so far, together with what the
frames are still going to tell it, is always in balance with the snapshots (`Proceedings.account`): an
actor is not given another snapshot before all observers have been told of the last one (`Guarded`).
Whoever subscribes after the actor has stopped only hears that nothing more will come, and has done so
when the call returns (`Delivery.Admits`).
-/

namespace Statechart

/-- What an observer hears last, by the snapshot of its actor. -/
def Notification.Tells (status : SnapshotStatus) : Notification → Prop
  | .next _ => False
  | .error _ => status = .error
  | .complete => status ≠ .error

namespace Delivery

variable {d d' : Delivery} {act : Act} {s : Session} {n : Nat} {o : Observer} {f : Frame}
  {frames rest xs : List Frame}

/-! ## The account of an observer -/

/-- An observer follows an actor, which has not told its end. -/
structure Subscribed (s : Session) (n : Nat) (d : Delivery) : Prop where
  once : following s n d.system = 1
  guarded : Guarded s n d.frames
  ending : Ending s d.system d.frames

/-- An actor has stopped, and is not going to tell an observer anything new. -/
structure Closed (s : Session) (n : Nat) (d : Delivery) : Prop where
  stopped : (d.system.actor s).status = .stopped
  spent : following s n d.system = 0 ∨ .finish ∉ stages s d.frames ∧ .failed ∉ stages s d.frames

theorem Subscribed.known (h : d.Subscribed s n) : ∃ a, d.system.actor? s = some a := by
  cases ha : d.system.actor? s with
  | some a => exact ⟨a, rfl⟩
  | none =>
      have honce := h.once
      rw [following, System.actor, ha] at honce
      cases honce

theorem Closed.known (h : d.Closed s n) : ∃ a, d.system.actor? s = some a := by
  cases ha : d.system.actor? s with
  | some a => exact ⟨a, rfl⟩
  | none =>
      have hstopped := h.stopped
      rw [System.actor, ha] at hstopped
      cases hstopped

theorem Passes.tidings (h : Passes s n d d' xs) : tidings n d'.frames = tidings n d.frames := by
  rw [h.frames, tidings_append, tidings_eq_nil h.silent]
  rfl

theorem Subscribed.passes (h : d.Subscribed s n) (hd : d.Sound) (hpasses : Passes s n d d' xs) :
    d'.Subscribed s n := by
  obtain ⟨a, ha⟩ := h.known
  refine ⟨hpasses.following.trans h.once, ?_, ?_⟩ <;> rw [hpasses.frames]
  · exact h.guarded.append hpasses.silent
  · have hending : Ending s d.system ((none : Option Frame).toList ++ d.frames) := h.ending
    exact hending.next (hpasses.winding a ha) hd ha (fun _ => hpasses.quiescent)
      ⟨List.not_mem_nil, List.not_mem_nil⟩

/-- Nothing more comes up for an actor that has stopped. -/
theorem Winding.spent {sys sys' : System} {top : Option Frame}
    (h : Winding s sys top sys' xs rest) (hstopped : (sys.actor s).status = .stopped)
    (hrest : .finish ∉ stages s rest ∧ .failed ∉ stages s rest) :
    .finish ∉ stages s (xs ++ rest) ∧ .failed ∉ stages s (xs ++ rest) := by
  rw [stages_append, List.mem_append, List.mem_append, not_or, not_or]
  exact ⟨⟨fun hmem => (h.concludes.finish hmem).1 hstopped, hrest.1⟩,
    fun hmem => (h.concludes.failed hmem).1 hstopped, hrest.2⟩

theorem Closed.passes (h : d.Closed s n) (hpasses : Passes s n d d' xs) :
    d'.Closed s n ∧ (d'.system.actor s).snapshot = (d.system.actor s).snapshot := by
  obtain ⟨a, ha⟩ := h.known
  have hwinding := hpasses.winding a ha
  obtain ⟨hstopped, hsnapshot⟩ := hwinding.stopped h.stopped
  refine ⟨⟨hstopped, h.spent.imp (hpasses.following.trans ·) fun hrest => ?_⟩, hsnapshot⟩
  rw [hpasses.frames]
  exact hwinding.spent h.stopped hrest

/-- An actor that has stopped tells nothing but what it was going to tell. -/
theorem Closed.carries (h : d.Closed s n) (hcarries : Carries d f rest)
    (hinforms : Informs s n d f rest d.step.system d.pushed) :
    d.step.Closed s n ∧ hears n d .step ++ tidings n d.step.frames = tidings n d.frames ∧
      commits s d .step = [] ∧
        (d.step.system.actor s).snapshot = (d.system.actor s).snapshot := by
  obtain ⟨a, ha⟩ := h.known
  have hwinding := hcarries.winding s a ha
  obtain ⟨hstopped, hsnapshot⟩ := hwinding.stopped h.stopped
  have hspent := h.spent
  rw [hcarries.frames, stages_cons, List.mem_append, List.mem_append, not_or, not_or] at hspent
  have hclosed : following s n d.step.system = 0 ∨
      following s n d.step.system = following s n d.system → d.step.Closed s n := by
    intro hfollowing
    refine ⟨hstopped, ?_⟩
    rw [hcarries.result]
    rcases hfollowing with hnone | hsame
    · exact .inl hnone
    · rw [hsame]
      exact hspent.imp_right fun hrest => hwinding.spent h.stopped ⟨hrest.1.2, hrest.2.2⟩
  rw [hcarries.frames, hcarries.result, tidings_cons, tidings_append]
  cases hinforms with
  | passed _ hfollowing htidings hcommits _ =>
      rw [htidings, List.append_assoc]
      exact ⟨hclosed (.inr hfollowing), rfl, hcommits, hsnapshot⟩
  | committed _ hrunning =>
      -- who has stopped is given no snapshot any more
      rw [h.stopped] at hrunning
      cases hrunning
  | @ended x what hstage hx hhears htop htidings hcommits =>
      have hmem : x ∈ (f.stageOf s).toList := by rw [Frame.stageOf_self hstage]; simp
      -- with a frame left that tells of the end nobody follows any more
      have hnone : following s n d.system = 0 := by
        refine hspent.resolve_right fun hnot => ?_
        rcases hx with ⟨rfl, -⟩ | ⟨rfl, -⟩
        · exact hnot.1.1 hmem
        · exact hnot.2.1 hmem
      rw [hnone] at htidings
      rw [hhears, htop, htidings]
      refine ⟨hclosed ?_, rfl, hcommits, hsnapshot⟩
      rcases hx with ⟨-, -, hzero⟩ | ⟨-, -, hsame⟩
      · exact .inl hzero
      · exact .inr hsame

/-- What an observer has heard, and what the frames are still going to tell it, are the snapshots that
its actor has been given, and how the actor has ended. -/
inductive Account (s : Session) (n : Nat) (d : Delivery) (heard : List Notification)
    (committed : List Snapshot) : Prop
  | following (h : d.Subscribed s n)
      (hbalance : heard ++ tidings n d.frames = committed.map .next)
  | ended {what : Notification} (h : d.Closed s n)
      (hwhat : what.Tells (d.system.actor s).snapshot.status)
      (hbalance : heard ++ tidings n d.frames = committed.map .next ++ [what])

section Account

variable {heard : List Notification} {committed : List Snapshot}

/-- Who is finished, or reports a failure, is not to be settled. -/
theorem Orderly.ending_stages {sys : System} {a : Actor} {x : Stage}
    (hd : Orderly (closing (f :: rest)) sys (f :: rest)) (ha : sys.actor? s = some a)
    (hstage : f.stage = some (s, x)) (hx : x = .finish ∨ x = .failed) :
    a.status = .stopped ∧ .settle ∉ stages s (f :: rest) ∧
      (x = .failed → .finish ∉ stages s rest ∧ .failed ∉ stages s rest) := by
  have hopen : closing (f :: rest) = none := closing_cons rest fun t heq => by
    rw [heq] at hstage
    rcases hx with rfl | rfl <;> cases hstage
  rw [hopen] at hd
  have hstaged := hd.staged hstage ha
  have hfinal : x.Final := by rcases hx with rfl | rfl <;> simp [Stage.Final]
  have hstopped : a.status = .stopped := by
    rcases hstaged.stopped x List.mem_cons_self hfinal with hstopped | hhalting
    · exact hstopped
    · cases hhalting
  refine ⟨hstopped, ?_, ?_⟩
  · rw [stages_cons, Frame.stageOf_self hstage]
    rcases hx with rfl | rfl
    · rcases hstaged.legal with hrest | hrest | hrest <;> simp [hrest]
    · have hrest : stages s rest = [.drain] := hstaged.legal
      simp [hrest]
  · rintro rfl
    have hrest : stages s rest = [.drain] := hstaged.legal
    simp [hrest]

/-- Who takes an event, or is launched, is not to be settled. -/
theorem Orderly.fresh_stages {sys : System} {a : Actor} (hd : Orderly (closing (f :: rest)) sys
    (f :: rest)) (ha : sys.actor? s = some a)
    (hf : f = .drain s ∨ ∃ snapshot, f = .launch s snapshot) : .settle ∉ stages s (f :: rest) := by
  rcases hf with rfl | ⟨snapshot, rfl⟩
  · have hd : Orderly none sys (.drain s :: rest) := hd
    simp [stages_cons, hd.below_drain ha, Frame.stageOf, Frame.stage]
  · have hd : Orderly none sys (.launch s snapshot :: rest) := hd
    simp [stages_cons, (hd.staged rfl ha).below_launch.1, Frame.stageOf, Frame.stage]

/-- As long as no snapshot is to be settled, an observer has heard of all of them, and nothing is going
to be told. -/
theorem balanced_of_guarded (h : Guarded s n (f :: rest)) (hsettle : .settle ∉ stages s (f :: rest))
    (hbalance : heard ++ tidings n (f :: rest) = committed.map .next) :
    heard = committed.map .next ∧ tidings n rest = [] := by
  have hnone := h.tidings hsettle
  rw [hnone, List.append_nil] at hbalance
  rw [tidings_cons] at hnone
  exact ⟨hbalance, (List.append_eq_nil_iff.mp hnone).2⟩

/-- Whatever goes on in an actor but its end is no end for its observers. -/
theorem Subscribed.ending_step (h : d.Subscribed s n) (hd : d.Sound) (hcarries : Carries d f rest)
    (htop : .finish ∉ stages s [f] ∧ .failed ∉ stages s [f]) :
    Ending s d.step.system d.step.frames := by
  obtain ⟨a, ha⟩ := h.known
  have hd : Orderly (closing d.frames) d.system d.frames := hd
  have hending := h.ending
  rw [hcarries.frames] at hd hending
  have hending : Ending s d.system ((some f).toList ++ rest) := hending
  rw [hcarries.result]
  exact hending.next (hcarries.winding s a ha) hd ha nofun htop

/-- An actor that comes to its end has stopped, and tells the end that its snapshot has. -/
theorem Subscribed.closes (h : d.Subscribed s n) (hd : d.Sound) (hcarries : Carries d f rest)
    {x : Stage} {what : Notification} (hstage : f.stage = some (s, x))
    (hx : x = .finish ∧ what = .complete ∧ following s n d.step.system = 0 ∨
      x = .failed ∧ (∃ e, what = .error e) ∧
        following s n d.step.system = following s n d.system) :
    d.step.Closed s n ∧ what.Tells (d.step.system.actor s).snapshot.status := by
  obtain ⟨a, ha⟩ := h.known
  have hwinding := hcarries.winding s a ha
  have hd : Orderly (closing d.frames) d.system d.frames := hd
  have hending := h.ending
  rw [hcarries.frames] at hd hending
  obtain ⟨hstopped, -, hrest⟩ := hd.ending_stages ha hstage (hx.imp And.left And.left)
  rw [← System.actor_eq ha] at hstopped
  obtain ⟨hstopped', hsnapshot⟩ := hwinding.stopped hstopped
  have hmem : x ∈ stages s (f :: rest) := mem_stages.mpr ⟨f, List.mem_cons_self, hstage⟩
  refine ⟨⟨hstopped', ?_⟩, ?_⟩
  · rcases hx with ⟨-, -, hzero⟩ | ⟨hfailed, -⟩
    · exact .inl hzero
    · rw [hcarries.result]
      exact .inr (hwinding.spent hstopped (hrest hfailed))
  · rw [hsnapshot]
    rcases hx with ⟨rfl, rfl, -⟩ | ⟨rfl, ⟨e, rfl⟩, -⟩
    · exact hending.finish hmem
    · exact hending.failed hmem

/-- The account stays in balance when the work of an actor goes on. -/
theorem Subscribed.carries (h : d.Subscribed s n) (hd : d.Sound) (hcarries : Carries d f rest)
    (hinforms : Informs s n d f rest d.step.system d.pushed)
    (hbalance : heard ++ tidings n d.frames = committed.map .next) :
    Account s n d.step (heard ++ hears n d .step) (committed ++ commits s d .step) := by
  obtain ⟨a, ha⟩ := h.known
  have hguarded := h.guarded
  have horderly : Orderly (closing d.frames) d.system d.frames := hd
  rw [hcarries.frames] at horderly hguarded hbalance
  cases hinforms with
  | passed hstage hfollowing htidings hcommits hkept =>
      refine .following ⟨hfollowing.trans h.once, ?_, h.ending_step hd hcarries hstage⟩ ?_
      · rw [hcarries.result]
        exact hkept hguarded
      · have hnone : commits s d .step = [] := hcommits
        rw [hnone, List.append_nil, hcarries.result, tidings_append, ← hbalance, tidings_cons,
          htidings]
        simp only [List.append_assoc]
  | @committed next hf hrunning hfollowing hhears htidings hcommits hkept =>
      -- a new snapshot comes when all before have been told, so it is the next to be told
      obtain ⟨hheard, hnone⟩ := balanced_of_guarded hguarded (horderly.fresh_stages ha hf) hbalance
      have hlasting : f.lasting = true := by rcases hf with rfl | ⟨_, rfl⟩ <;> rfl
      have htop : .finish ∉ stages s [f] ∧ .failed ∉ stages s [f] :=
        stages_lasting (by simp [hlasting])
      refine .following ⟨hfollowing.trans h.once, ?_, h.ending_step hd hcarries htop⟩ ?_
      · rw [hcarries.result]
        exact hkept hguarded.2
      · have hone : commits s d .step = [next] := hcommits
        rw [hone, hhears, List.append_nil, hcarries.result, tidings_append, htidings, h.once, hnone,
          hheard, List.map_append]
        rfl
  | @ended x what hstage hx hhears htop htidings hcommits =>
      obtain ⟨-, hsettle, -⟩ := horderly.ending_stages ha hstage (hx.imp And.left And.left)
      obtain ⟨hheard, hnone⟩ := balanced_of_guarded hguarded hsettle hbalance
      obtain ⟨hclosed, hwhat⟩ := h.closes hd hcarries hstage hx
      refine .ended hclosed hwhat ?_
      have hempty : commits s d .step = [] := hcommits
      rw [hempty, hhears, List.append_nil, List.append_nil, hcarries.result, tidings_append,
        htidings, h.once, hnone, hheard]
      rfl

/-- The account stays in balance whatever happens, as long as the observer keeps following. -/
theorem Account.next (h : Account s n d heard committed) (hd : d.Sound)
    (henrolled : d.Enrolled s n o) (ho : o.Attentive) (hnext : Occurs d act d')
    (hstay : ∀ subscription, act = .unsubscribe subscription →
      subscription.target ≠ some (s, n)) :
    Account s n d' (heard ++ hears n d act) (committed ++ commits s d act) := by
  rcases hnext.informs hd ho henrolled hstay with
    ⟨hhears, hcommits, xs, hpasses⟩ | ⟨rfl, rfl, f, rest, hcarries, hinforms⟩
  · rw [hhears, hcommits, List.append_nil, List.append_nil]
    cases h with
    | following h hbalance =>
        exact .following (h.passes hd hpasses) (by rw [hpasses.tidings, hbalance])
    | ended h hwhat hbalance =>
        obtain ⟨hclosed, hsnapshot⟩ := h.passes hpasses
        exact .ended hclosed (hsnapshot ▸ hwhat) (by rw [hpasses.tidings, hbalance])
  · cases h with
    | following h hbalance => exact h.carries hd hcarries hinforms hbalance
    | ended h hwhat hbalance =>
        obtain ⟨hclosed, htold, hcommits, hsnapshot⟩ := h.carries hcarries hinforms
        refine .ended hclosed (hsnapshot ▸ hwhat) ?_
        rw [hcommits, List.append_nil, List.append_assoc, htold, hbalance]

end Account

/-! ## Whole runs -/

/-- An observer keeps following an actor: its subscription is not given up in a run. -/
def Stays (s : Session) (n : Nat) (past : List (Delivery × Act)) : Prop :=
  ∀ x ∈ past, ∀ subscription, x.2 = .unsubscribe subscription → subscription.target ≠ some (s, n)

variable {first : Delivery} {past : List (Delivery × Act)}

theorem Proceedings.enrolled (h : first.Proceedings past d) (hfirst : first.Sound)
    (henrolled : first.Enrolled s n o) : d.Enrolled s n o := by
  induction h with
  | refl => exact henrolled
  | next hbefore hnext ih => exact (hnext.recalls (hbefore.sound hfirst)).enrolled ih

/-- Nothing is heard of an actor that has stopped but what it was going to tell. -/
theorem Proceedings.closed (h : first.Proceedings past d) (hfirst : first.Sound)
    (henrolled : first.Enrolled s n o) (ho : o.Attentive) (hstays : Stays s n past)
    (hclosed : first.Closed s n) :
    d.Closed s n ∧ heardOn n past ++ tidings n d.frames = tidings n first.frames ∧
      commitsOn s past = [] := by
  induction h with
  | refl => exact ⟨hclosed, rfl, rfl⟩
  | next hbefore hnext ih =>
      obtain ⟨hstay, hstays⟩ := List.forall_mem_cons.mp hstays
      obtain ⟨hclosed, htold, hcommits⟩ := ih hstays
      rw [heardOn_cons, commitsOn_cons, hcommits, List.nil_append]
      rcases hnext.informs (hbefore.sound hfirst) ho (hbefore.enrolled hfirst henrolled) hstay with
        ⟨hhears, hcommits, xs, hpasses⟩ | ⟨rfl, rfl, f, rest, hcarries, hinforms⟩
      · rw [hhears, List.append_nil, hpasses.tidings]
        exact ⟨(hclosed.passes hpasses).1, htold, hcommits⟩
      · obtain ⟨hnext, htidings, hcommits, -⟩ := hclosed.carries hcarries hinforms
        rw [List.append_assoc, htidings]
        exact ⟨hnext, htold, hcommits⟩

/-! ## Observers that have just come -/

/-- Nothing is going to be told under a number that has not been given out. -/
theorem Numbered.tidings (hnumbered : d.Numbered) (hf : f ∈ d.frames) :
    f.tidings d.system.nextObserver = [] :=
  Frame.tidings_eq_nil fun _ hp => Nat.ne_of_lt (hnumbered _ (.inr ⟨f, hf, hp⟩))

theorem Numbered.following (hnumbered : d.Numbered) (s : Session) :
    following s d.system.nextObserver d.system = 0 := by
  simpa [Delivery.following, List.countP_eq_zero] using fun number o hp =>
    Nat.ne_of_lt (hnumbered (number, o) (.inl ⟨s, hp⟩))

/-- A run that goes on for a number of steps. -/
def stepOn : Nat → List (Delivery × Act) × Delivery → List (Delivery × Act) × Delivery
  | 0, run => run
  | k + 1, (past, d) => stepOn k ((d, .step) :: past, d.step)

theorem Proceedings.stepOn (h : first.Proceedings past d) : ∀ k,
    first.Proceedings (stepOn k (past, d)).1 (stepOn k (past, d)).2 := by
  intro k
  induction k generalizing past d with
  | zero => exact h
  | succ k ih => exact ih (h.next (.step d))

/-- The application has a worker made, and holds it. -/
def hired : Delivery := done ((spawn {} default {}).1.hold "worker" ⟨0⟩)

end Delivery

end Statechart
