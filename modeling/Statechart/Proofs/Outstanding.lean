import Statechart.Proofs.Running

/-!
# Effects that are still to be carried out

Effects wait with an actor until it begins, and then in the frames that carry them out
(`Delivery.outstanding`). Whatever happens leaves those of an actor alone, carries out the first
one, or is a step of the actor (`Moves.conducts`), which begins only when nothing is outstanding.
-/

namespace Statechart

/-- The effects of an actor that a frame carries out. -/
def Frame.tasks (p : Session) : Frame → List Effect
  | .effects s rest => if s = p then rest else []
  | _ => []

/-- A frame by which nothing of an actor is carried out, and nothing is taken from it. -/
structure Frame.Spares (p : Session) (f : Frame) : Prop where
  tasks : f.tasks p = []
  retire : f ≠ .retire p

/-- The first event that waits is a signal. -/
def Mailbox.Signals (m : Mailbox) : Prop :=
  m.status = .running → ∃ event, m.queue.head? = some event ∧
    (event.name = Event.initName ∨ event.name = Event.stopName)

/-- Effects wait with an actor only until it takes the first signal. -/
def Actor.Primed (a : Actor) : Prop := a.pending ≠ [] → a.mailbox.Signals

/-! ## Signals -/

namespace Mailbox

variable {m m' : Mailbox}

theorem Signals.push (h : m.Signals) (event : Event) : (m.push event).Signals := by
  intro hrunning
  obtain ⟨first, hfirst, hname⟩ := h hrunning
  obtain ⟨rest, hqueue⟩ := List.head?_eq_some_iff.mp hfirst
  exact ⟨first, by rw [Mailbox.push, hqueue]; rfl, hname⟩

theorem Signals.turns {c : Call} (h : m.Signals) (hturns : m.Turns c m') : m'.Signals := by
  cases hturns with
  | sent event defer =>
      unfold enqueue
      split
      · exact h
      · split
        · exact h.push event
        · exact h
      · exact h.push event
  | started hstart =>
      obtain ⟨-, hm⟩ := Option.ite_none_right_eq_some.mp hstart
      cases hm
      exact fun _ => ⟨initSignal, rfl, .inl rfl⟩
  | stopAsked => exact fun _ => ⟨stopSignal, rfl, .inr rfl⟩

theorem Signals.beginFlush (h : m.Signals) (hbegin : m.beginFlush? = some m') : m'.Signals := by
  obtain ⟨-, hm⟩ := Option.ite_none_left_eq_some.mp hbegin
  cases hm
  exact h

/-- If a signal waits first, it is taken. -/
theorem Signals.next {next : Option Event} (h : m.Signals) (hnext : m.next = (m', next))
    (hrunning : m.status = .running) :
    ∃ event, next = some event ∧ (event.name = Event.initName ∨ event.name = Event.stopName) := by
  obtain ⟨first, hfirst, hname⟩ := h hrunning
  obtain ⟨rest, hqueue⟩ := List.head?_eq_some_iff.mp hfirst
  rw [next_cons hqueue] at hnext
  cases hnext
  exact ⟨first, rfl, hname⟩

end Mailbox

namespace Delivery

/-! ## Frames -/

section Frames

variable {p s : Session} {f : Frame} {xs ys : List Frame}

/-- The effects of an actor that frames carry out, in order. -/
def outstanding (p : Session) (frames : List Frame) : List Effect := frames.flatMap (Frame.tasks p)

@[simp] theorem outstanding_nil (p : Session) : outstanding p [] = [] := rfl

theorem outstanding_cons (f : Frame) (frames : List Frame) :
    outstanding p (f :: frames) = f.tasks p ++ outstanding p frames := List.flatMap_cons

theorem outstanding_append (xs ys : List Frame) :
    outstanding p (xs ++ ys) = outstanding p xs ++ outstanding p ys := List.flatMap_append

/-- One frame of effects below the others. -/
theorem outstanding_effects (rest : List Effect) :
    outstanding p [.effects s rest] = (Frame.effects s rest).tasks p := by
  rw [outstanding_cons, outstanding_nil, List.append_nil]

theorem tasks_eq_nil (h : f.stage ≠ some (p, .effects)) : f.tasks p = [] := by
  cases f with
  | effects s rest =>
      have hne : s ≠ p := by
        rintro rfl
        exact h rfl
      exact if_neg hne
  | _ => rfl

theorem outstanding_eq_nil (h : ∀ f ∈ xs, f.stage ≠ some (p, .effects)) : outstanding p xs = [] :=
  List.flatMap_eq_nil_iff.mpr fun f hf => tasks_eq_nil (h f hf)

/-- Frames at other stages spare an actor. -/
theorem spares_of_stage (h : f.stage ≠ some (p, .effects)) (h' : f.stage ≠ some (p, .retire)) :
    f.Spares p :=
  ⟨tasks_eq_nil h, fun heq => h' (by rw [heq]; rfl)⟩

/-- Without a frame nothing is carried out. -/
theorem none_spares : ∀ f : Frame, none = some f → f.Spares p := fun _ h => by cases h

theorem plain_spares (h : f.Plain) : f.Spares p :=
  spares_of_stage (by rw [h.stage]; nofun) (by rw [h.stage]; nofun)

theorem aside_spares (h : f.Aside s) : f.Spares p :=
  spares_of_stage (by rw [show f.stage = _ from h]; simp) (by rw [show f.stage = _ from h]; simp)

/-- Frames that are about another actor spare this one. -/
theorem other_spares {x : Stage} (h : f.stage = some (s, x)) (hne : p ≠ s) : f.Spares p := by
  have hstage : ∀ y, f.stage ≠ some (p, y) := by
    intro y hy
    rw [h] at hy
    cases hy
    exact hne rfl
  exact spares_of_stage (hstage _) (hstage _)

/-- Frames by which nothing of any actor is carried out or taken spare this one. -/
theorem spares_of_free (h : ∀ s, f.stage ≠ some (s, .effects) ∧ f.stage ≠ some (s, .retire)) :
    ∀ g, some f = some g → g.Spares p := by
  rintro g ⟨⟩
  exact spares_of_stage (h p).1 (h p).2

theorem spares_drain {t : Session} : ∀ g, some (Frame.drain t) = some g → g.Spares p :=
  spares_of_free (by simp [Frame.stage])

theorem outstanding_plain (h : ∀ f ∈ xs, f.Plain) : outstanding p xs = [] :=
  List.flatMap_eq_nil_iff.mpr fun f hf => (plain_spares (h f hf)).tasks

end Frames

/-- When the mailbox of an actor is worked off, nothing is outstanding below. -/
theorem Orderly.outstanding_below {next : Option Session} {sys : System} {rest : List Frame}
    {p : Session} {a : Actor} (h : Orderly next sys (.drain p :: rest))
    (ha : sys.actor? p = some a) : outstanding p rest = [] := by
  refine outstanding_eq_nil fun f hf hstage => ?_
  have hmem := mem_stages.mpr ⟨f, hf, hstage⟩
  rw [h.below_drain ha] at hmem
  cases hmem

/-! ## Moves -/

/-- What the move of the frame on top does with the effects of an actor. -/
inductive Conducts (p : Session) (top : Option Frame) (xs : List Frame) (b b' : Actor) : Prop
  /-- It leaves them alone. -/
  | kept (htop : ∀ f, top = some f → f.Spares p) (hsnapshot : b'.snapshot = b.snapshot)
      (hpending : b'.pending = b.pending) (htasks : outstanding p xs = [])
  /-- The actor begins to carry out what has waited with it. -/
  | begun (htop : top = some (.drain p)) (hsnapshot : b'.snapshot = b.snapshot)
      (hpending : b'.pending = []) (htasks : outstanding p xs = b.pending)
  /-- It carries out the first one. -/
  | carried {e : Effect} {rest : List Effect} (htop : top = some (.effects p (e :: rest)))
      (hsnapshot : b'.snapshot = b.snapshot) (hpending : b'.pending = b.pending)
      (htasks : outstanding p xs = rest)
  /-- The actor takes an event. -/
  | reacted {event : Event} {m : Mailbox} (htop : top = some (.drain p))
      (hrunning : b.status = .running) (hnext : b.mailbox.next = (m, some event))
      (hinit : event.name ≠ Event.initName) (hstop : event.name ≠ Event.stopName)
      (hactive : b.snapshot.status = .active)
  /-- The actor is not active any more. -/
  | ended (h : b'.status = .stopped ∨ b'.snapshot.status ≠ .active)

variable {sys sys' : System} {top : Option Frame} {rest xs : List Frame} {p s : Session}
  {a b b' : Actor}

/-- What a move does with the effects of an actor, if it leaves the actor in order. -/
def Conducted (sys' : System) (p : Session) (top : Option Frame) (xs : List Frame) (b : Actor) :
    Prop :=
  ∃ b', sys'.actor? p = some b' ∧ (b.Primed → b'.Primed) ∧ Conducts p top xs b b'

theorem conducted_same (hb : sys'.actor? p = some b) (htop : ∀ f, top = some f → f.Spares p)
    (hxs : outstanding p xs = []) : Conducted sys' p top xs b :=
  ⟨b, hb, id, .kept htop rfl rfl hxs⟩

/-- An effect is carried out, of this actor or of another one. -/
theorem conducts_effects {e : Effect} {more : List Effect} (hsnapshot : b'.snapshot = b.snapshot)
    (hpending : b'.pending = b.pending)
    (hxs : outstanding p xs = (Frame.effects s more).tasks p) :
    Conducts p (some (.effects s (e :: more))) xs b b' := by
  by_cases hs : s = p
  · subst hs
    exact .carried rfl hsnapshot hpending (hxs.trans (if_pos rfl))
  · refine .kept (fun f hf => ?_) hsnapshot hpending (hxs.trans (if_neg hs))
    cases hf
    exact other_spares rfl (Ne.symm hs)

/-- What a call makes of an actor. -/
theorem Answered.conducted {t : Session} {c : Call} (h : Answered sys t c sys' xs)
    (hb : sys.actor? p = some b) : outstanding p xs = [] ∧ ∃ b', sys'.actor? p = some b' ∧
      (b.Primed → b'.Primed) ∧ b'.pending = b.pending ∧
        (b'.snapshot = b.snapshot ∨ b'.snapshot.status ≠ .active) := by
  have hnone : ∀ {frames : List Frame}, frames = [] ∨ frames = [.leave] →
      outstanding p frames = [] := by
    rintro frames (rfl | rfl) <;> rfl
  -- calls change nobody but the actor they are made on
  have hother : ∀ {a' : Actor}, sys.Puts t a' sys' → p ≠ t → ∃ b', sys'.actor? p = some b' ∧
      (b.Primed → b'.Primed) ∧ b'.pending = b.pending ∧
        (b'.snapshot = b.snapshot ∨ b'.snapshot.status ≠ .active) := fun hputs hne =>
    ⟨b, (hputs.other hne).trans hb, id, rfl, .inl rfl⟩
  cases h with
  | refused hquiet hframes _ =>
      exact ⟨hnone hframes, b, (hquiet.actor? p).trans hb, id, rfl, .inl rfl⟩
  | posted ha hturns _ hputs hframes =>
      refine ⟨hnone hframes, ?_⟩
      by_cases hpt : p = t
      · subst hpt
        cases ha.symm.trans hb
        exact ⟨_, hputs.self, fun h hpending => (h hpending).turns hturns, rfl, .inl rfl⟩
      · exact hother hputs hpt
  | claimed ha hturns hbegin hputs =>
      refine ⟨rfl, ?_⟩
      by_cases hpt : p = t
      · subst hpt
        cases ha.symm.trans hb
        exact ⟨_, hputs.self, fun h hpending => ((h hpending).turns hturns).beginFlush hbegin, rfl,
          .inl rfl⟩
      · exact hother hputs hpt
  | halted ha hstatus hputs =>
      refine ⟨rfl, ?_⟩
      by_cases hpt : p = t
      · subst hpt
        cases ha.symm.trans hb
        refine ⟨_, hputs.self, fun h => h, rfl, .inr ?_⟩
        rw [Snapshot.status_stopped]
        nofun
      · exact hother hputs hpt

/-- What a frame that makes a call does with the effects of an actor. -/
theorem Calls.conducts {t : Session} {c : Call} {below : List Frame}
    (h : Calls sys top t c below) (hxs : outstanding p xs = []) (hpending : b'.pending = b.pending)
    (hsnapshot : b'.snapshot = b.snapshot) : Conducts p top (xs ++ below) b b' := by
  have hkept : (∀ f, top = some f → f.Spares p) → outstanding p below = [] →
      Conducts p top (xs ++ below) b b' := fun htop hbelow =>
    .kept htop hsnapshot hpending (by rw [outstanding_append, hxs, hbelow]; rfl)
  have heffects : ∀ {s : Session} {e : Effect} {more : List Effect},
      top = some (.effects s (e :: more)) → outstanding p below = (Frame.effects s more).tasks p →
        Conducts p top (xs ++ below) b b' := by
    rintro s e more rfl hbelow
    exact conducts_effects hsnapshot hpending (by rw [outstanding_append, hxs, hbelow]; rfl)
  cases h with
  | outside => exact hkept none_spares rfl
  | send =>
      refine heffects rfl ?_
      rw [outstanding_cons, outstanding_effects]
      rfl
  | start | stop => exact heffects rfl (outstanding_effects _)
  | stopAll | tell | script | fire => exact hkept (by rintro f ⟨⟩; exact ⟨rfl, nofun⟩) rfl

/-- One actor does something with its effects, and the others are left alone. -/
theorem conducted_work {a' : Actor} (ha : sys.actor? s = some a) (hb : sys.actor? p = some b)
    (hself : sys'.actor? s = some a') (hkept : p ≠ s → sys'.actor? p = some b)
    (htop : ∀ f, top = some f → f.Spares p) (hxs : p ≠ s → outstanding p xs = [])
    (hown : p = s → a = b → (a.Primed → a'.Primed) ∧ Conducts p top xs a a') :
    Conducted sys' p top xs b := by
  by_cases hps : p = s
  · subst hps
    cases ha.symm.trans hb
    exact ⟨a', hself, hown rfl rfl⟩
  · exact conducted_same (hkept hps) htop (hxs hps)

/-- Only the mailbox of one actor, or what follows it, has changed. -/
theorem conducted_puts {a' : Actor} (hputs : sys.Puts s a' sys') (hb : sys.actor? p = some b)
    (ha : sys.actor? s = some a) (htop : ∀ f, top = some f → f.Spares p)
    (hxs : outstanding p xs = []) (hprimed : a.Primed → a'.Primed)
    (hsnapshot : a'.snapshot = a.snapshot) (hpending : a'.pending = a.pending) :
    Conducted sys' p top xs b :=
  conducted_work ha hb hputs.self (fun hps => (hputs.other hps).trans hb) htop (fun _ => hxs)
    fun _ _ => ⟨hprimed, .kept htop hsnapshot hpending hxs⟩

/-- Machines have nothing to do when they start. -/
theorem Launches.of_machine {definition : Definition Logic}
    {implementations : Implementations Logic} {snapshot next : Snapshot} {effects : List Effect}
    {failure : Option ActorError} (h : Launches sys a snapshot sys' next effects failure)
    (hlogic : a.logic = .machine definition implementations) :
    next = snapshot ∧ effects = [] := by
  cases h with
  | ok h =>
      rw [hlogic] at h
      cases h
      exact ⟨rfl, rfl⟩
  | error h =>
      rw [hlogic] at h
      cases h

/-- Effects wait with an actor no longer when a mailbox is found empty: a signal would be left. -/
theorem conducted_emptied {m : Mailbox} (ha : sys.actor? s = some a)
    (hb : sys.actor? p = some b) (hnext : a.mailbox.next = (m, none))
    (hputs : sys.Puts s { a with mailbox := m } sys') :
    Conducted sys' p (some (.drain s)) [] b := by
  refine conducted_puts hputs hb ha spares_drain rfl (fun h hpending hrunning => ?_) rfl rfl
  obtain ⟨event, hevent, -⟩ :=
    (h hpending).next hnext ((Mailbox.next_status hnext).symm.trans hrunning)
  cases hevent

theorem conducted_passed {m : Mailbox} {event : Event} (ha : sys.actor? s = some a)
    (hb : sys.actor? p = some b) (hnext : a.mailbox.next = (m, some event))
    (hinit : event.name ≠ Event.initName) (hstop : event.name ≠ Event.stopName)
    (hputs : sys.Puts s { a with mailbox := m } sys') :
    Conducted sys' p (some (.drain s)) [.drain s] b := by
  refine conducted_puts hputs hb ha spares_drain rfl (fun h hpending hrunning => ?_) rfl rfl
  obtain ⟨_, ⟨⟩, hname⟩ :=
    (h hpending).next hnext ((Mailbox.next_status hnext).symm.trans hrunning)
  exact absurd hname (not_or.mpr ⟨hinit, hstop⟩)

theorem conducted_begun {m : Mailbox} (ha : sys.actor? s = some a) (hb : sys.actor? p = some b)
    (hputs : sys.Puts s { a with mailbox := m, pending := [] } sys') :
    Conducted sys' p (some (.drain s)) [.effects s a.pending, .launch s a.snapshot, .drain s] b := by
  refine conducted_work ha hb hputs.self (fun hps => (hputs.other hps).trans hb) spares_drain
    (fun hps => by simp [outstanding, Frame.tasks, Ne.symm hps]) fun hps _ => ?_
  subst hps
  refine ⟨fun _ hpending => absurd rfl hpending, .begun rfl rfl rfl ?_⟩
  simp [outstanding, Frame.tasks]

/-- A mailbox that has been closed is not running, and may hold anything. -/
theorem conducted_stopped {m : Mailbox} {sys₀ sys₁ : System} {next : Snapshot}
    {effects : List Effect} {kept : List Session} (hsound : sys.Sound)
    (ha : sys.actor? s = some a) (hb : sys.actor? p = some b)
    (htook : sys.Puts s { a with mailbox := m } sys₀)
    (hends : Ends sys₀ { a with mailbox := m } sys₁ next effects)
    (hputs : sys₁.Puts s { a with mailbox := m.close, snapshot := next } sys') :
    Conducted sys' p (some (.drain s))
      [.effects s effects, .halt s, .finish s, .keep kept, .drain s] b := by
  have halters := hends.alters hsound ha htook hputs
  refine conducted_work ha hb halters.self (fun hps => halters.kept p b hps hb) spares_drain
    (fun hps => by simp [outstanding, Frame.tasks, Ne.symm hps]) fun _ _ => ?_
  exact ⟨fun _ _ hrunning => (by cases hrunning), .ended (.inl rfl)⟩

/-- An actor with which effects wait takes a signal first, so that it does not take any other
event. -/
theorem conducted_reacted {m : Mailbox} {event : Event} {sys₀ sys₁ : System} {next : Snapshot}
    {effects : List Effect} {failure : Option ActorError} {kept : List Session}
    (hd : Orderly none sys (.drain s :: rest)) (ha : sys.actor? s = some a)
    (hb : sys.actor? p = some b) (hnext : a.mailbox.next = (m, some event))
    (hinit : event.name ≠ Event.initName) (hstop : event.name ≠ Event.stopName)
    (hactive : a.snapshot.status = .active) (htook : sys.Puts s { a with mailbox := m } sys₀)
    (hreacts : Reacts sys₀ { a with mailbox := m } event sys₁ next effects failure)
    (hputs : sys₁.Puts s { a with mailbox := m, snapshot := next } sys') :
    Conducted sys' p (some (.drain s)) [.effects s effects, .notify a.observers (.next next),
      .settle s next failure, .keep kept, .drain s] b := by
  have halters := hreacts.alters hd.system ha htook hputs
  refine conducted_work ha hb halters.self (fun hps => halters.kept p b hps hb) spares_drain
    (fun hps => by simp [outstanding, Frame.tasks, Ne.symm hps]) fun hps _ => ?_
  subst hps
  have hrunning := hd.running ha hnext
  refine ⟨fun h hpending => ?_, .reacted rfl hrunning hnext hinit hstop hactive⟩
  obtain ⟨_, ⟨⟩, hname⟩ := (h hpending).next hnext hrunning
  exact absurd hname (not_or.mpr ⟨hinit, hstop⟩)

/-- The start of a machine leaves its snapshot as it is. -/
theorem conducted_launched {definition : Definition Logic}
    {implementations : Implementations Logic} {sys₁ : System} {snapshot next : Snapshot}
    {effects : List Effect} {failure : Option ActorError}
    (hd : Orderly none sys (.launch s snapshot :: rest)) (ha : sys.actor? s = some a)
    (hb : sys.actor? p = some b) (hlogic : b.logic = .machine definition implementations)
    (hlaunches : Launches sys a snapshot sys₁ next effects failure)
    (hputs : sys₁.Puts s { a with snapshot := next } sys') :
    Conducted sys' p (some (.launch s snapshot)) [.effects s effects,
      .notify a.observers (.next next), .settle s next failure] b := by
  have halters := hlaunches.alters hd.system ha (hd.launching ha) hputs
  have htop : ∀ g, some (Frame.launch s snapshot) = some g → g.Spares p :=
    spares_of_free (by simp [Frame.stage])
  refine conducted_work ha hb halters.self (fun hps => halters.kept p b hps hb) htop
    (fun hps => by simp [outstanding, Frame.tasks, Ne.symm hps]) fun hps hab => ?_
  subst hps hab
  have hcurrent : snapshot = a.snapshot :=
    (hd.attended p a hb).current _ List.mem_cons_self snapshot (if_pos rfl)
  obtain ⟨hsame, hnothing⟩ := hlaunches.of_machine hlogic
  refine ⟨fun h => h, .kept htop (hsame.trans hcurrent) rfl ?_⟩
  simp [outstanding, Frame.tasks, hnothing]

/-- Who is taken out of the system has stopped. -/
theorem conducted_retired (hd : Orderly none sys (.retire s :: rest)) (hb : sys.actor? p = some b)
    (hactors : ∀ t, sys'.actor? t = sys.actor? t) : Conducted sys' p (some (.retire s)) [] b := by
  by_cases hps : p = s
  · subst hps
    have hstopped := (hd.staged (f := .retire p) rfl hb).stopped _ List.mem_cons_self
      (by simp [Stage.Final])
    exact ⟨b, (hactors p).trans hb, id, .ended (.inl (hstopped.resolve_right (by simp)))⟩
  · refine conducted_same ((hactors p).trans hb) ?_ rfl
    rintro f ⟨⟩
    exact other_spares rfl hps

/-- What a move does with the effects of the actor of a machine. -/
theorem Moves.conducts {definition : Definition Logic} {implementations : Implementations Logic}
    (h : Moves sys top sys' xs)
    (hd : Orderly (closing (top.toList ++ rest)) sys (top.toList ++ rest))
    (hb : sys.actor? p = some b) (hlogic : b.logic = .machine definition implementations) :
    Conducted sys' p top xs b := by
  cases h with
  | idled htop hquiet hxs =>
      exact conducted_same ((hquiet.actor? p).trans hb) (fun f hf => plain_spares (htop f hf))
        (outstanding_plain hxs)
  | grown h => exact conducted_same (h.grown.kept p b hb) none_spares rfl
  | watched _ ha hputs => exact conducted_puts hputs hb ha none_spares rfl id rfl rfl
  | called hcalls hquiet h =>
      obtain ⟨hxs, b', hb', hprimed, hpending, hsnapshot | hover⟩ :=
        h.conducted ((hquiet.actor? p).trans hb)
      · exact ⟨b', hb', hprimed, hcalls.conducts hxs hpending hsnapshot⟩
      · exact ⟨b', hb', hprimed, .ended (.inr hover)⟩
  | resumed hf hquiet hxs =>
      refine conducted_same ((hquiet.actor? p).trans hb) (by rintro f ⟨⟩; exact aside_spares hf) ?_
      rcases hxs with rfl | ⟨g, hg, rfl⟩
      · rfl
      · rw [outstanding_cons, (aside_spares hg).tasks]
        rfl
  | posted hf ha hputs =>
      exact conducted_puts hputs hb ha (by rintro f ⟨⟩; exact aside_spares hf) rfl
        (fun h hpending => (h hpending).turns (.sent _ true)) rfl rfl
  | @exhausted s sys' hquiet =>
      refine conducted_same ((hquiet.actor? p).trans hb) ?_ rfl
      rintro f ⟨⟩
      exact ⟨by rw [Frame.tasks, ite_self], by simp⟩
  | performed _ h =>
      exact ⟨b, (h.actor? p).trans hb, id, conducts_effects rfl rfl (outstanding_effects _)⟩
  | interrupted _ hg =>
      refine ⟨b, hb, id, conducts_effects rfl rfl ?_⟩
      rw [outstanding_cons, (aside_spares hg).tasks, outstanding_effects]
      rfl
  -- to wind an actor up is no effect of it
  | settled hquiet =>
      exact conducted_same ((hquiet.actor? p).trans hb) (spares_of_free (by simp [Frame.stage])) rfl
  | done hquiet =>
      exact conducted_same ((hquiet.actor? p).trans hb) (spares_of_free (by simp [Frame.stage])) rfl
  | broken hquiet =>
      exact conducted_same ((hquiet.actor? p).trans hb) (spares_of_free (by simp [Frame.stage])) rfl
  | reported hquiet hbefore =>
      refine conducted_same ((hquiet.actor? p).trans hb) (spares_of_free (by simp [Frame.stage])) ?_
      rw [outstanding_append, outstanding_plain hbefore]
      rfl
  | untold hquiet =>
      exact conducted_same ((hquiet.actor? p).trans hb) (spares_of_free (by simp [Frame.stage])) rfl
  -- the mailbox of an actor is worked off, of this one or of another
  | emptied ha hnext hputs => exact conducted_emptied ha hb hnext hputs
  | passed ha hnext hinit hstop _ hputs => exact conducted_passed ha hb hnext hinit hstop hputs
  | begun ha _ _ hputs => exact conducted_begun ha hb hputs
  | stopped ha _ _ htook hends hputs => exact conducted_stopped hd.system ha hb htook hends hputs
  | reacted ha hnext hinit hstop hactive htook hreacts hputs =>
      exact conducted_reacted hd ha hb hnext hinit hstop hactive htook hreacts hputs
  | launched ha hlaunches hputs => exact conducted_launched hd ha hb hlogic hlaunches hputs
  | halted ha hputs =>
      exact conducted_work ha hb hputs.self (fun hps => (hputs.other hps).trans hb)
        (spares_of_free (by simp [Frame.stage])) (fun _ => rfl)
        fun _ _ => ⟨fun _ _ hrunning => (by cases hrunning), .ended (.inl rfl)⟩
  | retired hactors => exact conducted_retired hd hb hactors
  | finished ha hputs =>
      exact conducted_puts hputs hb ha (spares_of_free (by simp [Frame.stage])) rfl id rfl rfl

end Delivery

end Statechart
