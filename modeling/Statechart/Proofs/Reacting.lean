import Statechart.Proofs.Invocations
import Statechart.Proofs.Outstanding
import Statechart.Proofs.Standing
import Statechart.Proofs.Timekeeping

/-!
# Steps of a machine in the course of things

When the machine of an actor takes an event (`Delivery.Reacting`), what it asks for is all that is
outstanding then (`Delivery.step_reacts`). At any other time its snapshot stays as it is, and what
is outstanding stays too or is carried out in order (`Delivery.Works`).
-/

namespace Statechart

namespace Delivery

/-- An actor that is active takes an event next. -/
structure Reacting (d : Delivery) (p : Session) (event : Event) : Prop where
  taking : d.taking p = some event
  init : event.name ≠ Event.initName
  stop : event.name ≠ Event.stopName
  active : (d.system.actor p).snapshot.status = .active

/-- In the step that comes next the machine of an actor enters a state. -/
inductive Enters (d : Delivery) (p : Session) (st : Nat) : Prop
  | intro {m : Machine} {s : MachineSnapshot} {event : Event} {w : Work}
      (hmachine : d.machine? p = some (m, s)) (hreacting : d.Reacting p event)
      (h : m.transitionRun (d.stepScope p) s event = .ok () w) (hentered : w.HasEntered st)

/-- The effects of an actor that are still to be carried out. -/
def todo (d : Delivery) (p : Session) : List Effect :=
  outstanding p d.frames ++ (d.system.actor p).pending

/-- What the next thing that happens is to the actor of a machine. -/
inductive Works (d d' : Delivery) (p : Session) (b b' : Actor) : Prop
  | kept (hidle : ∀ event, ¬ d.Reacting p event)
      (htop : ∀ f, d.frames.head? = some f → f.Spares p) (hsnapshot : b'.snapshot = b.snapshot)
      (htodo : d'.todo p = d.todo p)
  | carried {e : Effect} {rest : List Effect} (hidle : ∀ event, ¬ d.Reacting p event)
      (htop : d.frames.head? = some (.effects p (e :: rest))) (hsnapshot : b'.snapshot = b.snapshot)
      (htodo : d.todo p = e :: d'.todo p)
  | reacted {m : Machine} {s next : MachineSnapshot} {event : Event} {scope : Scope}
      (htop : d.frames.head? = some (.drain p)) (hmachine : d.machine? p = some (m, s))
      (hreacting : d.Reacting p event)
      (h : m.transition (d.stepScope p) s event = (scope, .ok next))
      (hsnapshot : b'.snapshot = .machine next) (hnothing : d.todo p = [])
      (htodo : d'.todo p = scope.effects)
  | ended (h : b'.status = .stopped ∨ b'.snapshot.status ≠ .active)

variable {d d' : Delivery} {p : Session} {event : Event} {b b' : Actor} {m : Machine}
  {s : MachineSnapshot}

/-- An event is taken from the mailbox that is worked off on top. -/
theorem head_of_taking (h : d.taking p = some event) :
    (∃ rest, d.frames = .drain p :: rest) ∧
      (d.system.actor p).mailbox.queue.head? = some event := by
  unfold taking takes at h
  split at h
  · rename_i t htop
    obtain ⟨rfl, hhead⟩ := Option.ite_none_right_eq_some.mp h
    exact ⟨List.head?_eq_some_iff.mp htop, hhead⟩
  · cases h

/-- What an actor does that takes an event. -/
theorem step_handles (h : d.Reacting p event) : ∃ rest, d.frames = .drain p :: rest ∧
    d.step = (handleEvent (d.stepScope p).system p event).before (.drain p :: rest) := by
  obtain ⟨⟨rest, hframes⟩, hhead⟩ := head_of_taking h.taking
  refine ⟨rest, hframes, ?_⟩
  have hnext := Mailbox.next_of_head hhead
  have hscope : (d.stepScope p).system = System.setMailbox
      { d.system with pins := pins (.drain p :: rest) } p (d.system.actor p).mailbox.next.1 := by
    rw [← hframes]
    rfl
  rw [step_cons hframes, hscope, frame]
  have hactor : System.actor { d.system with pins := pins (.drain p :: rest) } p =
      d.system.actor p := rfl
  rw [hactor, hnext]
  simp only
  rw [process, if_neg h.init, if_neg h.stop, before_append]
  rfl

/-- A machine that takes an event gets a new snapshot, and what it asks for is to be carried out. If
it fails, it is not active any more. -/
theorem handleEvent_machine {sys : System} {a : Actor} (event : Event) (hsound : sys.Sound)
    (ha : sys.actor? p = some a) (hlogic : a.logic = .machine m.definition m.implementations)
    (hspawn : m.spawn = spawn) (hs : a.snapshot = .machine s) (hactive : s.status = .active) :
    ∃ b', (handleEvent sys p event).system.actor? p = some b' ∧ b'.pending = a.pending ∧
      ((∃ scope next, m.transition (scopeOf sys a) s event = (scope, .ok next) ∧
        b'.snapshot = .machine next ∧
          outstanding p (handleEvent sys p event).frames = scope.effects) ∨
        b'.snapshot.status ≠ .active) := by
  obtain ⟨definition, implementations, make⟩ := m
  obtain rfl : make = spawn := hspawn
  unfold handleEvent
  simp only
  rw [System.actor_eq ha, if_pos (hs ▸ hactive)]
  cases hrun : Machine.transition { definition, implementations, spawn } (scopeOf sys a) s event with
  | mk scope result =>
      -- whoever the step has made, this actor is still there
      have hthrives := Machine.transition_thrives hrun sound_spawn hsound
      have htransition : a.logic.transition spawn (scopeOf sys a) a.snapshot event =
          (scope, result.map Snapshot.machine) := by
        rw [hlogic, hs, Logic.transition, hrun]
      rw [htransition]
      cases result with
      | ok next =>
          refine ⟨_, (puts_next hthrives ha (.machine next)).self, rfl,
            .inl ⟨scope, next, rfl, rfl, ?_⟩⟩
          simp [commit, before, doing, outstanding, Frame.tasks, Except.map]
      | error e =>
          refine ⟨_, (puts_next hthrives ha (a.snapshot.failed e.toJson)).self, rfl, .inr ?_⟩
          rw [Snapshot.status_failed]
          exact fun h => SnapshotStatus.noConfusion h

/-- When the machine of an actor takes an event, what it asks for is all that is outstanding then.
-/
theorem step_reacts (hd : d.Sound) (hb : d.system.actor? p = some b)
    (hmachine : d.machine? p = some (m, s)) (h : d.Reacting p event) :
    ∃ b', d.step.system.actor? p = some b' ∧ b'.pending = b.pending ∧
      ((∃ scope next, m.transition (d.stepScope p) s event = (scope, .ok next) ∧
        b'.snapshot = .machine next ∧ outstanding p d.step.frames = scope.effects) ∨
          b'.snapshot.status ≠ .active) := by
  obtain ⟨rest, hframes, hstep⟩ := step_handles h
  obtain ⟨sys, hquiet, hscope, hputs⟩ := stepScope_puts hd hb
  have hb₀ := (hquiet.actor? p).trans hb
  have hsound := (hd.system.quiet hquiet).puts hputs hb₀ rfl
    ((hd.system.quiet hquiet).suits p b hb₀)
  -- nothing else is outstanding when a mailbox is worked off
  have hrest : outstanding p rest = [] := by
    have hd : Orderly (closing d.frames) d.system d.frames := hd
    rw [hframes] at hd
    exact hd.outstanding_below hb
  have hactive := h.active
  rw [System.actor_eq hb] at hactive
  rw [machine?, System.actor_eq hb] at hmachine
  split at hmachine <;> cases hmachine
  rename_i definition implementations hlogic hs
  rw [hs] at hactive
  obtain ⟨b', hb', hpending, hnext⟩ := handleEvent_machine event
    (m := { definition, implementations, spawn }) hsound hputs.self hlogic rfl hs hactive
  rw [← hscope] at hnext
  rw [hstep]
  refine ⟨b', hb', hpending, hnext.imp_left ?_⟩
  rintro ⟨scope, next, hrun, hsnapshot, htasks⟩
  refine ⟨scope, next, hrun, hsnapshot, ?_⟩
  rw [before, outstanding_append, outstanding_cons, htasks, hrest]
  exact List.append_nil _

/-- An actor that takes an event runs. -/
theorem Reacting.running (h : d.Reacting p event) (hd : d.Sound)
    (hb : d.system.actor? p = some b) : b.status = .running := by
  obtain ⟨⟨rest, hframes⟩, hhead⟩ := head_of_taking h.taking
  rw [System.actor_eq hb] at hhead
  have hd : Orderly (closing d.frames) d.system d.frames := hd
  rw [hframes] at hd
  exact hd.running hb (Mailbox.next_of_head hhead)

/-- Nothing waits with an actor that takes an event. -/
theorem Reacting.pending (h : d.Reacting p event) (hd : d.Sound)
    (hb : d.system.actor? p = some b) (hprimed : b.Primed) : b.pending = [] := by
  by_contra hpending
  obtain ⟨-, hhead⟩ := head_of_taking h.taking
  rw [System.actor_eq hb] at hhead
  obtain ⟨_, hevent, hname⟩ := hprimed hpending (h.running hd hb)
  cases hhead.symm.trans hevent
  exact hname.elim h.init h.stop

/-- The actor of a machine has a snapshot of the machine. -/
theorem machine?_eq {definition : Definition Logic} {implementations : Implementations Logic}
    (hd : d.Sound) (hb : d.system.actor? p = some b)
    (hlogic : b.logic = .machine definition implementations) :
    ∃ s, b.snapshot = .machine s ∧
      d.machine? p = some ({ definition, implementations, spawn }, s) := by
  have hsuits := hd.system.suits p b hb
  rw [hlogic] at hsuits
  cases hs : b.snapshot with
  | value v =>
      rw [hs] at hsuits
      exact hsuits.elim
  | machine s =>
      refine ⟨s, rfl, ?_⟩
      rw [machine?, System.actor_eq hb, hlogic, hs]

theorem snapshot_of_machine? (hb : d.system.actor? p = some b)
    (hmachine : d.machine? p = some (m, s)) : b.snapshot = .machine s := by
  rw [machine?, System.actor_eq hb] at hmachine
  split at hmachine <;> cases hmachine
  assumption

/-- When its machine takes an event the actor reacts, or it is not active any more. -/
theorem Reacting.works {definition : Definition Logic} {implementations : Implementations Logic}
    (hreacting : d.Reacting p event) (h : d.Happens d') (hd : d.Sound)
    (hb : d.system.actor? p = some b) (hb' : d'.system.actor? p = some b')
    (hlogic : b.logic = .machine definition implementations) (hprimed : b.Primed) :
    Works d d' p b b' := by
  obtain ⟨s, -, hmachine⟩ := machine?_eq hd hb hlogic
  obtain ⟨⟨below, hframes⟩, -⟩ := head_of_taking hreacting.taking
  obtain rfl : d' = d.step := h.eq_step (by rw [hframes]; exact List.cons_ne_nil _ _)
  obtain ⟨b'', hb'', hpending, hnext⟩ := step_reacts hd hb hmachine hreacting
  cases hb'.symm.trans hb''
  have hnone : b.pending = [] := hreacting.pending hd hb hprimed
  rcases hnext with ⟨scope, next, hrun, hsnapshot, htasks⟩ | hover
  · refine .reacted (hframes ▸ rfl) hmachine hreacting hrun hsnapshot ?_ ?_
    · have hd : Orderly (closing d.frames) d.system d.frames := hd
      rw [hframes] at hd
      rw [todo, hframes, outstanding_cons, hd.outstanding_below hb, System.actor_eq hb, hnone]
      rfl
    · rw [todo, htasks, System.actor_eq hb', hpending, hnone, List.append_nil]
  · exact .ended (.inr hover)

/-- Apart from the steps of the machine, what a move does with the effects of an actor shows in what
is outstanding. -/
theorem Conducts.works {top : Option Frame} {rest xs : List Frame}
    (h : Conducts p top xs b b') (hidle : ∀ event, ¬ d.Reacting p event)
    (hb : d.system.actor? p = some b) (hhead : d.frames.head? = top)
    (hbelow : top = some (.drain p) → outstanding p rest = [])
    (htodo : d.todo p = outstanding p top.toList ++ outstanding p rest ++ b.pending)
    (htodo' : d'.todo p = outstanding p xs ++ outstanding p rest ++ b'.pending) :
    Works d d' p b b' := by
  cases h with
  | kept htop hsnapshot hpending htasks =>
      refine .kept hidle (fun f hf => htop f (hhead ▸ hf)) hsnapshot ?_
      have hnone : outstanding p top.toList = [] := by
        cases top with
        | none => rfl
        | some f =>
            rw [Option.toList_some, outstanding_cons, (htop f rfl).tasks]
            rfl
      rw [htodo, htodo', htasks, hnone, hpending]
  | begun htop hsnapshot hpending htasks =>
      have hnone := hbelow htop
      subst htop
      refine .kept hidle (fun f hf => ?_) hsnapshot ?_
      · rw [hhead] at hf
        cases hf
        exact ⟨rfl, fun heq => by cases heq⟩
      · rw [htodo, htodo', hnone, hpending, htasks]
        simp [outstanding, Frame.tasks]
  | carried htop hsnapshot hpending htasks =>
      subst htop
      refine .carried hidle hhead hsnapshot ?_
      rw [htodo, htodo', htasks, hpending]
      simp [outstanding, Frame.tasks]
  -- a reaction is a step of the machine, which is excluded here
  | @reacted event m htop _ hnext hinit hstop hactive =>
      refine absurd ⟨?_, hinit, hstop, ?_⟩ (hidle event)
      · rw [taking, hhead, htop, takes, if_pos rfl, System.actor_eq hb,
          (Mailbox.next_some hnext).1]
        rfl
      · rw [System.actor_eq hb]
        exact hactive
  | ended hover => exact .ended hover

/-- What the next thing that happens is to the actor of a machine. -/
theorem Happens.works {definition : Definition Logic} {implementations : Implementations Logic}
    (h : d.Happens d') (hd : d.Sound) (hb : d.system.actor? p = some b)
    (hlogic : b.logic = .machine definition implementations) (hprimed : b.Primed) :
    ∃ b', d'.system.actor? p = some b' ∧ b'.logic = b.logic ∧
      (b'.status ≠ .stopped → b.status ≠ .stopped) ∧ b'.Primed ∧ Works d d' p b b' := by
  obtain ⟨sys, top, rest, xs, hgoes⟩ := h.goes hd
  have hsys : Orderly (closing d.frames) sys d.frames := hd.quiet hgoes.quiet
  rw [hgoes.frames] at hsys
  obtain ⟨b', hb', hprimes, hconducts⟩ :=
    hgoes.moves.conducts hsys ((hgoes.quiet.actor? p).trans hb) hlogic
  obtain ⟨b'', hb'', hbecomes, hevolves⟩ := (hgoes.evolution hd).actor p b hb
  cases hb'.symm.trans hb''
  refine ⟨b', hb', by rw [hbecomes], fun hopen hstopped => hopen (hevolves.stopped hstopped).1,
    hprimes hprimed, ?_⟩
  by_cases hreacting : ∃ event, d.Reacting p event
  · obtain ⟨event, hreacting⟩ := hreacting
    exact hreacting.works h hd hb hb' hlogic hprimed
  · have hbelow : top = some (.drain p) → outstanding p rest = [] := by
      rintro rfl
      exact hsys.outstanding_below ((hgoes.quiet.actor? p).trans hb)
    refine hconducts.works (not_exists.mp hreacting) hb hgoes.head.1 hbelow ?_ ?_
    · rw [todo, hgoes.frames, outstanding_append, System.actor_eq hb]
    · rw [todo, hgoes.result, outstanding_append, System.actor_eq hb']

end Delivery

end Statechart
