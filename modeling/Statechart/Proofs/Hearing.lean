import Statechart.Proofs.Proceedings

/-!
# What observers hear

An observer with a number hears what its callbacks are run for (`Delivery.hears`), and the frames say
what it is still going to be told (`Delivery.tidings`). `Delivery.Occurs.informs` says what anything that
happens means to an observer that follows an actor: it passes the observer by, or goes on with an
actor's work, which hands on what was to be told, gives the actor a snapshot, or ends it.
-/

namespace Statechart

/-- An observer that has all three callbacks. -/
def Observer.Attentive (o : Observer) : Prop :=
  o.next.isSome = true ∧ o.error.isSome = true ∧ o.complete.isSome = true

theorem Observer.Attentive.react {o : Observer} (h : o.Attentive) (seen : Nat)
    (what : Notification) : (o.react seen what).isSome = true := by
  obtain ⟨hnext, herror, hcomplete⟩ := h
  cases what with
  | next snapshot => rwa [Observer.react, Option.isSome_map]
  | error e => rwa [Observer.react, Option.isSome_map]
  | complete => exact hcomplete

/-- What a frame is going to tell the observer with a number. -/
def Frame.tidings (n : Nat) : Frame → List Notification
  | .notify observers what => List.replicate (observers.countP fun p => p.1 = n) what
  | _ => []

theorem Frame.tidings_eq_nil {n : Nat} {f : Frame} (h : ∀ p ∈ f.audience, p.1 ≠ n) :
    f.tidings n = [] := by
  cases f with
  | notify observers what =>
      have h : ∀ p ∈ observers, p.1 ≠ n := h
      have hnone : (observers.countP fun p => p.1 = n) = 0 := by simpa [List.countP_eq_zero] using h
      rw [tidings, hnone]
      rfl
  | _ => rfl

namespace Delivery

variable {d d' : Delivery} {act : Act} {s : Session} {n : Nat} {o : Observer} {f : Frame}
  {frames rest xs : List Frame}

/-! ## Hearing -/

/-- What the observer with a number hears when something happens: that one of its callbacks is run. -/
def hears (n : Nat) (d : Delivery) : Act → List Notification
  | .step =>
      match d.frames with
      | .notify ((number, o) :: _) what :: _ =>
          if number = n ∧ (o.react (seenBy d.system number) what).isSome then [what] else []
      | _ => []
  | _ => []

/-- The snapshots that an actor is given when something happens: what `commit` puts in place is to be
settled next. -/
def commits (s : Session) (d : Delivery) : Act → List Snapshot
  | .step => d.pushed.filterMap (Frame.settles s)
  | _ => []

/-- What an observer has heard in a run, in order. -/
def heardOn (n : Nat) (past : List (Delivery × Act)) : List Notification :=
  past.reverse.flatMap fun x => hears n x.1 x.2

/-- The snapshots that an actor has been given in a run, in order. -/
def commitsOn (s : Session) (past : List (Delivery × Act)) : List Snapshot :=
  past.reverse.flatMap fun x => commits s x.1 x.2

theorem heardOn_cons (n : Nat) (d : Delivery) (act : Act) (past : List (Delivery × Act)) :
    heardOn n ((d, act) :: past) = heardOn n past ++ hears n d act := by
  simp [heardOn]

theorem commitsOn_cons (s : Session) (d : Delivery) (act : Act) (past : List (Delivery × Act)) :
    commitsOn s ((d, act) :: past) = commitsOn s past ++ commits s d act := by
  simp [commitsOn]

/-- What the observer with a number is still going to be told, in order. -/
def tidings (n : Nat) (frames : List Frame) : List Notification := frames.flatMap (Frame.tidings n)

theorem tidings_cons (f : Frame) (frames : List Frame) :
    tidings n (f :: frames) = f.tidings n ++ tidings n frames := rfl

theorem tidings_append (xs frames : List Frame) :
    tidings n (xs ++ frames) = tidings n xs ++ tidings n frames := List.flatMap_append

theorem tidings_eq_nil (h : ∀ g ∈ xs, g.tidings n = []) : tidings n xs = [] :=
  List.flatMap_eq_nil_iff.mpr h

/-- Whatever is told about an actor comes before the actor is settled. -/
def Guarded (s : Session) (n : Nat) : List Frame → Prop
  | [] => True
  | f :: rest => (f.tidings n ≠ [] → .settle ∈ stages s rest) ∧ Guarded s n rest

theorem Guarded.append (h : Guarded s n frames) (hxs : ∀ g ∈ xs, g.tidings n = []) :
    Guarded s n (xs ++ frames) := by
  induction xs with
  | nil => exact h
  | cons g xs ih =>
      obtain ⟨hg, hxs⟩ := List.forall_mem_cons.mp hxs
      exact ⟨fun hsome => absurd hg hsome, ih hxs⟩

/-- Unless an actor is to be settled, nothing is going to be told about it. -/
theorem Guarded.tidings (h : Guarded s n frames) (hsettle : .settle ∉ stages s frames) :
    tidings n frames = [] := by
  induction frames with
  | nil => rfl
  | cons f rest ih =>
      have hrest : .settle ∉ stages s rest := fun hmem => hsettle (by
        rw [stages_cons]
        exact List.mem_append_right _ hmem)
      rw [tidings_cons, ih h.2 hrest, List.append_nil]
      by_contra hsome
      exact hrest (h.1 hsome)

/-! ## One observer -/

/-- A number has been given to an observer, which follows one actor at most. -/
structure Enrolled (s : Session) (n : Nat) (o : Observer) (d : Delivery) : Prop where
  given : n < d.system.nextObserver
  own : ∀ t, ∀ p ∈ (d.system.actor t).observers, p.1 = n → t = s
  same : ∀ p, d.Knows p → p.1 = n → p.2 = o

theorem Recalls.enrolled (h : Recalls d d') (hd : d.Enrolled s n o) : d'.Enrolled s n o := by
  have hgiven : ∀ {p}, Given d d' p → p.1 ≠ n := fun hp heq => by
    have hlt := hd.given
    rw [← hp.1, heq] at hlt
    exact Nat.lt_irrefl _ hlt
  refine ⟨Nat.lt_of_lt_of_le hd.given h.numbers, fun t p hp hn => ?_, fun p hp hn => ?_⟩
  · rcases h.followers t p hp with hold | hnew
    · exact hd.own t p hold hn
    · exact absurd hn (hgiven hnew)
  · rcases h.known hp with hold | hnew
    · exact hd.same p hold hn
    · exact absurd hn (hgiven hnew)

/-- How often a number stands for a follower of an actor. -/
def following (s : Session) (n : Nat) (sys : System) : Nat :=
  (sys.actor s).observers.countP fun p => p.1 = n

/-- Something happens beside the work of the frame on top, and an observer hears nothing of it. -/
structure Passes (s : Session) (n : Nat) (d d' : Delivery) (xs : List Frame) : Prop where
  quiescent : d.Open
  frames : d'.frames = xs ++ d.frames
  silent : ∀ g ∈ xs, g.tidings n = []
  following : following s n d'.system = following s n d.system
  winding : ∀ a, d.system.actor? s = some a → Winding s d.system none d'.system xs d.frames

theorem Beside.passes (h : Beside d d' xs) : Passes s n d d' xs where
  quiescent := h.quiescent
  frames := h.frames
  silent g hg := Frame.tidings_eq_nil fun p hp => absurd hp (not_mem_audience h.discreet hg)
  following := by rw [Delivery.following, h.followers s, Delivery.following]
  winding a ha := h.winding s a ha

/-- An actor that has not changed otherwise stays where it is. -/
theorem winding_same {sys sys' : System} (hmailbox : (sys'.actor s).mailbox = (sys.actor s).mailbox)
    (hsnapshot : (sys'.actor s).snapshot = (sys.actor s).snapshot)
    (hxs : xs.all Frame.lasting = true) : Winding s sys none sys' xs rest where
  stopped hstopped := ⟨by rwa [Actor.status, hmailbox], hsnapshot⟩
  halted := nofun
  stops hopen hstopped := by
    rw [Actor.status, hmailbox] at hstopped
    exact absurd hstopped hopen
  concludes := .lasting hxs

section Followers

variable {sys : System} {g : List (Nat × Observer) → List (Nat × Observer)} {t : Session}

/-- Nothing else about an actor changes with its followers. -/
theorem actor_follow (hkeyed : sys.Keyed) (s t : Session) :
    ((sys.modify t fun a => { a with observers := g a.observers }).actor s).mailbox =
        (sys.actor s).mailbox ∧
      ((sys.modify t fun a => { a with observers := g a.observers }).actor s).snapshot =
        (sys.actor s).snapshot := by
  cases ha : sys.actor? t with
  | none => rw [System.modify_none _ ha]; exact ⟨rfl, rfl⟩
  | some a =>
      have hputs := System.puts_modify (f := fun a => { a with observers := g a.observers }) hkeyed
        (fun _ => rfl) ha
      by_cases hts : s = t
      · rw [hts, hputs.actor_self, System.actor_eq ha]
        exact ⟨rfl, rfl⟩
      · rw [System.actor, hputs.other hts, System.actor]
        exact ⟨rfl, rfl⟩

theorem following_follow (hkeyed : sys.Keyed)
    (hg : t = s → ∀ l, (g l).countP (fun p => p.1 = n) = l.countP fun p => p.1 = n) :
    following s n (sys.modify t fun a => { a with observers := g a.observers }) =
      following s n sys := by
  cases ha : sys.actor? t with
  | none => rw [System.modify_none _ ha]
  | some a =>
      have hputs := System.puts_modify (f := fun a => { a with observers := g a.observers }) hkeyed
        (fun _ => rfl) ha
      rw [following, hputs.observers s, following]
      split
      · rename_i hst
        rw [hst, System.actor_eq ha]
        exact hg hst.symm _
      · rfl

end Followers

theorem Passes.subscribe (hd : d.Sound) (hopen : d.Open) (hn : n < d.system.nextObserver)
    (t : Session) (o : Observer) : ∃ xs, Passes s n d (d.subscribing t o) xs := by
  have hkeyed : System.Keyed { d.system with nextObserver := d.system.nextObserver + 1 } :=
    hd.system.keyed
  have hne : d.system.nextObserver ≠ n := Nat.ne_of_gt hn
  by_cases hstatus : (d.system.actor t).status = .stopped
  · rw [subscribing_stopped hstatus]
    refine ⟨[.notify [(d.system.nextObserver, o)] .complete], hopen, rfl, ?_, rfl,
      fun _ _ => winding_same rfl rfl rfl⟩
    simpa [Frame.tidings] using hne
  · rw [subscribing_open hstatus]
    obtain ⟨hmailbox, hsnapshot⟩ :=
      actor_follow (g := (· ++ [(d.system.nextObserver, o)])) hkeyed s t
    refine ⟨[], hopen, rfl, by simp, ?_, fun _ _ => winding_same hmailbox hsnapshot rfl⟩
    exact following_follow (g := (· ++ [(d.system.nextObserver, o)])) hkeyed fun _ l => by
      simp [List.countP_append, hne]

theorem Passes.unsubscribe (hd : d.Sound) (hopen : d.Open) {subscription : Subscription}
    (hstay : subscription.target ≠ some (s, n)) :
    Passes s n d { d with system := d.system.unsubscribe subscription } [] := by
  have hkeyed := hd.system.keyed
  unfold System.unsubscribe
  split
  · exact ⟨hopen, rfl, by simp, rfl, fun _ _ => winding_same rfl rfl rfl⟩
  · rename_i t number htarget
    obtain ⟨hmailbox, hsnapshot⟩ := actor_follow (g := fun l => l.filter fun o => o.1 ≠ number)
      hkeyed s t
    refine ⟨hopen, rfl, by simp, ?_, fun _ _ => winding_same hmailbox hsnapshot rfl⟩
    refine following_follow (g := fun l => l.filter fun o => o.1 ≠ number) hkeyed fun hts l => ?_
    have hne : n ≠ number := fun heq => hstay (by rw [htarget, hts, heq])
    rw [List.countP_filter]
    refine List.countP_congr fun p _ => ?_
    simp only [Bool.and_eq_true, decide_eq_true_eq, and_iff_left_iff_imp]
    exact fun heq => heq ▸ hne

/-! ## Steps -/

/-- What a step of an actor's work means to an observer. -/
inductive Informs (s : Session) (n : Nat) (d : Delivery) (f : Frame) (rest : List Frame)
    (sys' : System) (xs : List Frame) : Prop
  /-- What was going to be told is told, or is still going to be. -/
  | passed (hstage : .finish ∉ stages s [f] ∧ .failed ∉ stages s [f])
      (hfollowing : following s n sys' = following s n d.system)
      (htidings : f.tidings n = hears n d .step ++ tidings n xs)
      (hcommits : xs.filterMap (Frame.settles s) = [])
      (hguarded : Guarded s n (f :: rest) → Guarded s n (xs ++ rest))
  | committed {next : Snapshot} (hf : f = .drain s ∨ ∃ snapshot, f = .launch s snapshot)
      (hrunning : (d.system.actor s).status = .running)
      (hfollowing : following s n sys' = following s n d.system) (hhears : hears n d .step = [])
      (htidings : tidings n xs = List.replicate (following s n d.system) (.next next))
      (hcommits : xs.filterMap (Frame.settles s) = [next])
      (hguarded : Guarded s n rest → Guarded s n (xs ++ rest))
  /-- The actor ends, and is going to tell so. -/
  | ended {x : Stage} {what : Notification} (hstage : f.stage = some (s, x))
      (hx : x = .finish ∧ what = .complete ∧ following s n sys' = 0 ∨
        x = .failed ∧ (∃ e, what = .error e) ∧ following s n sys' = following s n d.system)
      (hhears : hears n d .step = []) (htop : f.tidings n = [])
      (htidings : tidings n xs = List.replicate (following s n d.system) what)
      (hcommits : xs.filterMap (Frame.settles s) = [])

theorem hears_eq_nil (hframes : d.frames = f :: rest) (hf : f.audience = []) :
    hears n d .step = [] := by
  unfold hears
  rw [hframes]
  cases f with
  | notify observers what =>
      have hnone : observers = [] := hf
      rw [hnone]
  | _ => rfl

theorem tidings_discreet (hxs : xs.all Frame.discreet = true) : ∀ g ∈ xs, g.tidings n = [] :=
  fun _ hg => Frame.tidings_eq_nil fun _ hp => absurd hp (not_mem_audience hxs hg)

theorem settles_discreet (hxs : xs.all Frame.discreet = true) :
    xs.filterMap (Frame.settles s) = [] :=
  List.filterMap_eq_nil_iff.mpr fun g hg =>
    Frame.settles_discreet (List.all_eq_true.mp hxs g hg) s

/-- A commit asks for one snapshot to be settled. -/
theorem settles_commit {t : Session} (effects : List Effect) (g : Frame) (next : Snapshot)
    (failure : Option ActorError) (hg : g.settles s = none) {ys : List Frame}
    (hys : ys.all Frame.discreet = true) :
    (Frame.effects t effects :: g :: .settle t next failure :: ys).filterMap (Frame.settles s) =
      if t = s then [next] else [] := by
  rw [List.filterMap_cons_none rfl, List.filterMap_cons_none hg, List.filterMap_cons,
    settles_discreet hys, Frame.settles]
  by_cases hts : t = s <;> simp [hts]

section Steps

variable {sys' : System} {t : Session}

theorem following_same (h : d.system.SameFollowers sys') :
    following s n sys' = following s n d.system := by
  rw [Delivery.following, h s, Delivery.following]

/-- Who follows another actor has another number. -/
theorem Enrolled.elsewhere (henrolled : d.Enrolled s n o) (hts : t ≠ s)
    {observers : List (Nat × Observer)} (hobservers : observers ⊆ (d.system.actor t).observers)
    (what : Notification) : (Frame.notify observers what).tidings n = [] :=
  Frame.tidings_eq_nil fun _ hp hn => hts (henrolled.own t _ (hobservers hp) hn)

/-- The frames of another actor neither finish an actor nor report that it has failed. -/
theorem stages_elsewhere {x : Stage} (hf : f.stage = some (t, x)) (hts : t ≠ s) :
    .finish ∉ stages s [f] ∧ .failed ∉ stages s [f] := by
  have hnone : stages s [f] = [] := stages_eq_nil fun g hg => by
    rw [List.mem_singleton.mp hg, Frame.stageOf, hf]
    exact if_neg hts
  rw [hnone]
  exact ⟨List.not_mem_nil, List.not_mem_nil⟩

/-- A frame that tells nothing, and puts nothing to be told in its place, passes an observer by. -/
theorem Informs.beside (hframes : d.frames = f :: rest) (hf : f.audience = [])
    (hstage : .finish ∉ stages s [f] ∧ .failed ∉ stages s [f])
    (hfollowing : following s n sys' = following s n d.system) (hxs : ∀ g ∈ xs, g.tidings n = [])
    (hcommits : xs.filterMap (Frame.settles s) = []) : Informs s n d f rest sys' xs := by
  refine .passed hstage hfollowing ?_ hcommits fun hguarded => hguarded.2.append hxs
  rw [hears_eq_nil hframes hf, tidings_eq_nil hxs]
  exact Frame.tidings_eq_nil (by simp [hf])

theorem informs_committed (henrolled : d.Enrolled s n o) (hframes : d.frames = f :: rest)
    {next : Snapshot} {effects : List Effect} {failure : Option ActorError} {ys : List Frame}
    (hf : f = .drain t ∨ ∃ snapshot, f = .launch t snapshot)
    (hrunning : (d.system.actor t).status = .running) (hsame : d.system.SameFollowers sys')
    (hys : ys.all Frame.discreet = true) :
    Informs s n d f rest sys' (.effects t effects ::
      .notify (d.system.actor t).observers (.next next) :: .settle t next failure :: ys) := by
  have haudience : f.audience = [] := by rcases hf with rfl | ⟨_, rfl⟩ <;> rfl
  have hsilent := tidings_discreet (n := n) hys
  have hcommits := settles_commit (s := s) (t := t) effects
    (.notify (d.system.actor t).observers (.next next)) next failure rfl hys
  by_cases hts : t = s
  · subst hts
    rw [if_pos rfl] at hcommits
    have htold : tidings n (.effects t effects :: .notify (d.system.actor t).observers
        (.next next) :: .settle t next failure :: ys) =
          List.replicate (following t n d.system) (.next next) := by
      rw [tidings_cons, tidings_cons, tidings_cons, tidings_eq_nil hsilent]
      exact List.append_nil _
    refine .committed hf hrunning (following_same hsame) (hears_eq_nil hframes haudience) htold hcommits
      fun hguarded => ?_
    -- the actor is settled below what is told
    have hsettle : .settle ∈ stages t (.settle t next failure :: (ys ++ rest)) :=
      mem_stages.mpr ⟨_, List.mem_cons_self, rfl⟩
    exact ⟨fun hsome => absurd rfl hsome, fun _ => hsettle, fun hsome => absurd rfl hsome,
      hguarded.append hsilent⟩
  · obtain ⟨x, hstage⟩ : ∃ x, f.stage = some (t, x) := by
      rcases hf with rfl | ⟨_, rfl⟩ <;> exact ⟨_, rfl⟩
    rw [if_neg hts] at hcommits
    refine .beside hframes haudience (stages_elsewhere hstage hts) (following_same hsame) ?_ hcommits
    intro g hg
    rcases List.mem_cons.mp hg with rfl | hg
    · rfl
    rcases List.mem_cons.mp hg with rfl | hg
    · exact henrolled.elsewhere hts (List.Subset.refl _) _
    rcases List.mem_cons.mp hg with rfl | hg
    · rfl
    · exact hsilent g hg

theorem informs_finished (henrolled : d.Enrolled s n o) (hframes : d.frames = .finish t :: rest)
    (hobservers : ∀ u, (sys'.actor u).observers =
      if u = t then [] else (d.system.actor u).observers) :
    Informs s n d (.finish t) rest sys' [.notify (d.system.actor t).observers .complete] := by
  by_cases hts : t = s
  · subst hts
    refine .ended rfl (.inl ⟨rfl, rfl, ?_⟩) (hears_eq_nil hframes rfl) rfl (List.append_nil _) rfl
    rw [following, hobservers t, if_pos rfl]
    rfl
  · refine .beside hframes rfl (stages_elsewhere rfl hts) ?_ ?_ rfl
    · rw [following, hobservers s, if_neg (Ne.symm hts), following]
    · intro g hg
      rw [List.mem_singleton.mp hg]
      exact henrolled.elsewhere hts (List.Subset.refl _) _

/-- An attentive observer is among those that are told of a failure. -/
theorem following_handlers (ho : o.Attentive) (henrolled : d.Enrolled s n o) :
    ((d.system.actor s).observers.filter fun p => p.2.handlesErrors).countP (fun p => p.1 = n) =
      following s n d.system := by
  rw [List.countP_filter, following]
  refine List.countP_congr fun p hp => ?_
  simp only [Bool.and_eq_true, decide_eq_true_eq, and_iff_left_iff_imp]
  intro hn
  rw [henrolled.same p (.inl ⟨s, hp⟩) hn]
  exact ho.2.1

theorem informs_failed (ho : o.Attentive) (henrolled : d.Enrolled s n o) {snapshot : Snapshot}
    {failure : Option ActorError} {event : Event} {before : List Frame}
    (hframes : d.frames = .failed t snapshot failure :: rest)
    (hsame : d.system.SameFollowers sys')
    (hbefore : (∃ e, before = [.notify
        ((d.system.actor t).observers.filter fun o => o.2.handlesErrors) (.error e)]) ∨
      before = [] ∧ ((d.system.actor t).observers.filter fun o => o.2.handlesErrors) = []) :
    Informs s n d (.failed t snapshot failure) rest sys' (before ++ [.tellParent t event]) := by
  have hcommits : (before ++ [Frame.tellParent t event]).filterMap (Frame.settles s) = [] := by
    rcases hbefore with ⟨e, rfl⟩ | ⟨rfl, -⟩ <;> rfl
  by_cases hts : t = s
  · subst hts
    have hcount := following_handlers ho henrolled
    -- an attentive observer is among those told, as often as it follows
    obtain ⟨e, htold⟩ : ∃ e, tidings n (before ++ [.tellParent t event]) =
        List.replicate (following t n d.system) (.error e) := by
      rcases hbefore with ⟨e, rfl⟩ | ⟨rfl, hnone⟩
      · rw [← hcount]
        exact ⟨e, List.append_nil _⟩
      · rw [← hcount, hnone]
        exact ⟨.unsettled "", rfl⟩
    exact .ended rfl (.inr ⟨rfl, ⟨e, rfl⟩, (following_same hsame)⟩) (hears_eq_nil hframes rfl) rfl htold
      hcommits
  · refine .beside hframes rfl (stages_elsewhere rfl hts) (following_same hsame) ?_ hcommits
    intro g hg
    rcases List.mem_append.mp hg with hg | hg
    · rcases hbefore with ⟨e, rfl⟩ | ⟨rfl, -⟩
      · rw [List.mem_singleton.mp hg]
        exact henrolled.elsewhere hts List.filter_sublist.subset _
      · cases hg
    · rw [List.mem_singleton.mp hg]
      rfl

/-- An attentive observer that is told something hears it. -/
theorem hears_told (ho : o.Attentive) (henrolled : d.Enrolled s n o) {number : Nat} {o' : Observer}
    {others : List (Nat × Observer)} {what : Notification}
    (hframes : d.frames = .notify ((number, o') :: others) what :: rest) :
    (Frame.notify ((number, o') :: others) what).tidings n =
      hears n d .step ++ (Frame.notify others what).tidings n := by
  unfold hears
  rw [hframes]
  simp only [Frame.tidings, List.countP_cons]
  by_cases hn : number = n
  · have hknown : d.Knows (number, o') :=
      .inr ⟨_, hframes ▸ List.mem_cons_self, List.mem_cons_self⟩
    have hsame : o' = o := henrolled.same _ hknown hn
    simp [hn, hsame, ho.react, List.replicate_succ]
  · simp [hn]

theorem informs_told (ho : o.Attentive) (henrolled : d.Enrolled s n o) {number : Nat}
    {o' : Observer} {others : List (Nat × Observer)} {what : Notification} {ys : List Frame}
    (hframes : d.frames = .notify ((number, o') :: others) what :: rest)
    (hsame : d.system.SameFollowers sys') (hys : ys.all Frame.discreet = true) :
    Informs s n d (.notify ((number, o') :: others) what) rest sys'
      (ys ++ [.notify others what]) := by
  have htold := hears_told ho henrolled hframes
  refine .passed (stages_lasting rfl) (following_same hsame) ?_ ?_ fun hguarded => ?_
  · rw [htold, tidings_append, tidings_eq_nil (tidings_discreet hys)]
    simp [tidings]
  · rw [List.filterMap_append, settles_discreet hys]
    rfl
  · rw [List.append_assoc]
    refine Guarded.append ⟨fun hsome => hguarded.1 fun hnone => hsome ?_, hguarded.2⟩
      (tidings_discreet hys)
    rw [htold] at hnone
    exact (List.append_eq_nil_iff.mp hnone).2

theorem Carries.informs (h : d.Carries f rest) (ho : o.Attentive) (henrolled : d.Enrolled s n o) :
    Informs s n d f rest d.step.system d.pushed := by
  have hframes := h.frames
  have hheeds := h.heeds
  generalize d.step.system = sys' at hheeds
  generalize d.pushed = xs at hheeds
  cases hheeds with
  | silent hf hlasting hsame hxs =>
      exact .beside hframes hf (stages_lasting (by simp [hlasting])) (following_same hsame)
        (tidings_discreet hxs) (settles_discreet hxs)
  | committed hf hrunning hsame hys =>
      exact informs_committed henrolled hframes hf hrunning hsame hys
  | finished hobservers => exact informs_finished henrolled hframes hobservers
  | failed hsame hbefore => exact informs_failed ho henrolled hframes hsame hbefore
  | told hsame hys => exact informs_told ho henrolled hframes hsame hys

end Steps

/-- Whatever happens, it passes an observer by or goes on with an actor's work. -/
theorem Occurs.informs (h : Occurs d act d') (hd : d.Sound) (ho : o.Attentive)
    (henrolled : d.Enrolled s n o) (hstay : ∀ subscription, act = .unsubscribe subscription →
      subscription.target ≠ some (s, n)) :
    (hears n d act = [] ∧ commits s d act = [] ∧ ∃ xs, Passes s n d d' xs) ∨
      act = .step ∧ d' = d.step ∧ ∃ f rest, d.Carries f rest ∧
        Informs s n d f rest d.step.system d.pushed := by
  cases act with
  | apart =>
      obtain ⟨xs, hbeside⟩ := h.beside hd
      exact .inl ⟨rfl, rfl, xs, hbeside.passes⟩
  | step =>
      cases h
      cases hframes : d.frames with
      | nil =>
          refine .inl ⟨?_, ?_, [], ?_⟩
          · rw [hears, hframes]
          · rw [commits, pushed, hframes]
            rfl
          · rw [step_nil hframes]
            exact ⟨by rw [Open, hframes]; rfl, rfl, by simp, rfl, fun _ _ => winding_same rfl rfl rfl⟩
      | cons f rest =>
          have hcarries := carries_step hd hframes
          exact .inr ⟨rfl, rfl, f, rest, hcarries, hcarries.informs ho henrolled⟩
  | subscribe t o' =>
      cases h
      exact .inl ⟨rfl, rfl, Passes.subscribe hd ‹_› henrolled.given t o'⟩
  | unsubscribe subscription =>
      cases h
      exact .inl ⟨rfl, rfl, [], .unsubscribe hd ‹_› (hstay subscription rfl)⟩

end Delivery

end Statechart
