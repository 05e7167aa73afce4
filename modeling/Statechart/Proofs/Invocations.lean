import Statechart.Proofs.Reports

/-!
# Reports and invocations

When a machine takes the report of a child's end, the child need not be registered any more:
meanwhile the machine may have stopped it, or put another actor in its place. If it has not, the
child that is registered is the one that the report is about (`Delivery.completion_finds_child`). A
machine does not check this before it takes a transition for the report
(`Delivery.stale_completion_taken`).
-/

namespace Statechart

namespace Delivery

/-! ## Taking events in a machine -/

/-- The scope in which the machine of an actor takes its next event. -/
def stepScope (d : Delivery) (p : Session) : Scope :=
  let sys : System := { d.system with pins := pins d.frames }
  let sys := sys.setMailbox p (sys.actor p).mailbox.next.1
  scopeOf sys (sys.actor p)

/-- The state at the beginning of that step. -/
def stepBegin (d : Delivery) (p : Session) (s : MachineSnapshot) : Work :=
  Machine.begin { d.stepScope p with
    system := (d.stepScope p).system.pinning (s.children.map Prod.snd) } s

/-- The machine of an actor, if it is one, and its snapshot. -/
def machine? (d : Delivery) (p : Session) : Option (Machine × MachineSnapshot) :=
  match (d.system.actor p).logic, (d.system.actor p).snapshot with
  | .machine definition implementations, .machine s =>
      some ({ definition, implementations, spawn }, s)
  | _, _ => none

/-- The machine of an actor takes the event that its mailbox hands out, once nothing else is left to
do in the step. -/
inductive Consumes (d : Delivery) (p : Session) (m : Machine) (event : Event) (w : Work) : Prop
  | intro {s : MachineSnapshot} (htaking : d.taking p = some event)
      (hmachine : d.machine? p = some (m, s)) (h : m.Meets event (d.stepBegin p s) w)

variable {d e : Delivery} {past : List Delivery} {sys : System} {p c : Session} {a : Actor}
  {m : Machine} {event : Event} {w : Work} {id : String}

/-- The scope of a step is that of the actor, in a system in which only its mailbox has moved on. -/
theorem stepScope_puts (hd : d.Sound) (ha : d.system.actor? p = some a) :
    ∃ sys, d.system.Quiet sys ∧ d.stepScope p = scopeOf (d.stepScope p).system
        { a with mailbox := a.mailbox.next.1 } ∧
      sys.Puts p { a with mailbox := a.mailbox.next.1 } (d.stepScope p).system := by
  have hquiet := quiet_pins d.system (pins d.frames)
  have ha' := (hquiet.actor? p).trans ha
  have hputs := System.puts_setMailbox (hquiet.keyed hd.system.keyed) ha' a.mailbox.next.1
  refine ⟨_, hquiet, ?_, ?_⟩
  · unfold stepScope
    simp only
    rw [System.actor_eq ha', hputs.actor_self]
    rfl
  · unfold stepScope
    simp only
    rw [System.actor_eq ha']
    exact hputs

/-- When a machine takes an event, a child is still registered, unless the step has stopped it or
put another actor in its place. -/
theorem Consumes.child (h : d.Consumes p m event w) (hd : d.Sound)
    (hc : (id, c) ∈ (d.system.actor p).snapshot.children) :
    w.snapshot.child? id = some c ∨ .stop c ∈ w.scope.effects ∨
      d.system.Replaces w.scope.system p id := by
  obtain ⟨a, ha⟩ := exists_of_child hc
  obtain ⟨sys, hquiet, hscope, hputs⟩ := stepScope_puts hd ha
  obtain ⟨-, hmachine, hmeets⟩ := h
  rw [machine?, System.actor_eq ha] at hmachine
  rw [System.actor_eq ha] at hc
  have hsound := (hd.system.quiet hquiet).puts hputs ((hquiet.actor? p).trans ha) rfl
    ((hd.system.quiet hquiet).suits p a ((hquiet.actor? p).trans ha))
  have hbelongs := belongs_scopeOf hsound hputs.self
  rw [← hscope] at hbelongs
  have hsuits := hsound.suits p _ hputs.self
  split at hmachine <;> cases hmachine
  rename_i hlogic hs
  simp only [hs, hlogic] at hsuits hc
  have hsuits : MachineSnapshot.Suits _ _ _ _ _ := hsuits
  rcases hmeets.child sound_spawn hsound (hbelongs p rfl).1.symm hbelongs hsuits hc with
    hnow | hstop | hreplaced
  · exact .inl hnow
  · exact .inr (.inl hstop)
  · exact .inr (.inr (hreplaced.since (Nat.le_of_eq (hquiet.next.symm.trans hputs.next.symm))))

/-- When a machine takes the report of a child's end, a child that was registered at some time still
is, unless it has been let go meanwhile, in an earlier step or in this one. -/
theorem completion_finds_child (hnil : sys.actors = []) (h : (done sys).Run past d)
    (ha : d.system.actor? c = some a) (hevent : event ∈ toldOn past c)
    (hconsumes : d.Consumes p m event w) :
    event.Reports (a.id, c) ∧ ∀ e ∈ past, (a.id, c) ∈ (e.system.actor p).snapshot.children →
      w.snapshot.child? a.id = some c ∨ .stop c ∈ w.scope.effects ∨
        d.system.Replaces w.scope.system p a.id ∨
          ∃ after, e.Run after d ∧ after ⊆ past ∧ LetGo e after d p (a.id, c) := by
  have hfresh : Reached (done sys) := .fresh sys hnil
  have hd := (h.reached hfresh).sound
  refine ⟨?_, fun e he hc => ?_⟩
  · exact completion_reports (hd.system.keyed c a ha)
      (((h.ledger hnil).reporting c a ha).reports hevent)
  · obtain ⟨before, after, hbefore, hafter, hpast⟩ := h.split he
    rcases hafter.entry (hbefore.reached hfresh) hc with hentry | hgone
    · rcases hconsumes.child hd hentry with hnow | hstop | hreplaced
      · exact .inl hnow
      · exact .inr (.inl hstop)
      · exact .inr (.inr (.inl hreplaced))
    · exact .inr (.inr (.inr ⟨after, hafter, hpast ▸ List.subset_append_left _ _, hgone⟩))

/-! ## A report that comes too late -/

/-- The transitions that a machine takes for an event. -/
def answers (m : Machine) (event : Event) (w : Work) : List Nat :=
  match Machine.releaseCompleted event w with
  | .ok _ w => (m.definition.select (m.situation w.snapshot) event).toOption.getD []
  | .error _ _ => []

/-- A transition is there for the end of an invocation. -/
def Awaits (m : Machine) (t : Nat) (id : String) : Prop :=
  (∃ i ∈ (m.definition.node (m.definition.transition t).source).invoke, i.id = id) ∧
    ((m.definition.transition t).event = .exact (Event.doneActorStart ++ id) ∨
      (m.definition.transition t).event = .exact (Event.platformErrorStart ++ id))

instance (m : Machine) (t : Nat) (id : String) : Decidable (Awaits m t id) :=
  inferInstanceAs (Decidable (_ ∧ _))

/-- What the machine of an actor takes if nothing else is left to do at the beginning of the step.
-/
def consumed? (d : Delivery) (p : Session) : Option (Machine × Event × Work) := do
  let event ← d.taking p
  let (m, s) ← d.machine? p
  let w := d.stepBegin p s
  if w.snapshot.status = .active ∧ w.internal = [] ∧
      m.definition.selectEventless (m.situation w.snapshot) event = .ok [] then
    some (m, event, w)
  else none

theorem consumes_of_consumed? (h : d.consumed? p = some (m, event, w)) :
    d.Consumes p m event w := by
  unfold consumed? at h
  obtain ⟨event, htaking, h⟩ := Option.bind_eq_some_iff.mp h
  obtain ⟨⟨m, s⟩, hmachine, h⟩ := Option.bind_eq_some_iff.mp h
  obtain ⟨⟨hactive, hinternal, hselect⟩, heq⟩ := Option.ite_none_right_eq_some.mp h
  cases heq
  exact .intro htaking hmachine (.here ⟨hactive, hselect, hinternal⟩)

/-- A machine that is done when it is told to finish. -/
def shiftWorkerConfig : MachineConfig where
  root := .node { id := some "worker", initial := some "busy" }
    (some [("busy", .node { on := some [("FINISH", some [.toTarget "over"])] } none),
      ("over", .node { kind := some .final } none)])

/-- A machine that has a worker invoked until it has finished. -/
def shiftOfficeConfig (orders : List ActionConfig) : MachineConfig where
  root := .node { id := some "office", initial := some "open" }
    (some [
      ("open", .node {
        invoke := [{ id := some "c", source := "worker", onDone := some [.toTarget "closed"] }]
        on := some [("GO", some [{ actions := orders }]),
          ("RENEW", some [{ target := ["open"], reenter := true }])] } none),
      ("closed", .node {} none)])

/-- To tell the worker to finish. -/
def dismiss : ActionConfig := .sendTo "c" (.name "FINISH") none none

/-- To begin anew, with another worker. -/
def renew : ActionConfig := .sendTo "#_self" (.name "RENEW") none none

def shiftWorker : Logic :=
  .machine ((Definition.build shiftWorkerConfig).toOption.getD default) default

def shiftOffice (orders : List ActionConfig) : Logic :=
  .machine ((Definition.build (shiftOfficeConfig orders)).toOption.getD default)
    { (default : Implementations Logic) with actors := fun _ => some shiftWorker }

/-- The office after it has been opened, with what has happened before. -/
def shiftOpen (orders : List ActionConfig) : List Delivery × Delivery :=
  startRun (shiftOffice orders) 20

/-- The office after some steps in which it carries out its orders. -/
def shiftRun (orders : List ActionConfig) (n : Nat) : List Delivery × Delivery :=
  let opened := shiftOpen orders
  goOn n (opened.2 :: opened.1, call opened.2.system ⟨0⟩ (.send (.named "GO")))

theorem run_shift {orders : List ActionConfig} {n : Nat}
    (hidle : (shiftOpen orders).2.frames.isEmpty = true) :
    (done {}).Run (shiftRun orders n).1 (shiftRun orders n).2 := by
  have hopened : (done {}).Run (shiftOpen orders).1 (shiftOpen orders).2 :=
    run_startRun (shiftOffice orders) 20
  exact (hopened.next (.call _ (List.isEmpty_iff.mp hidle) ⟨0⟩ (.send (.named "GO")))).goOn n

set_option maxRecDepth 100000 in
/-- An office that does not begin anew finds the worker whose report it takes: since it was opened it
has neither stopped the worker nor taken a report of it nor got another one. -/
theorem finished_worker_found : ∃ x ∈ (shiftRun [dismiss] 21).2.consumed? ⟨0⟩,
    x.2.1.Reports ("c", ⟨1⟩) ∧ x.2.2.snapshot.child? "c" = some ⟨1⟩ := by
  have hrun := @run_shift [dismiss] 21 (by decide +kernel)
  obtain ⟨a, ha⟩ : ∃ a, (shiftRun [dismiss] 21).2.system.actor? ⟨1⟩ = some a :=
    Option.isSome_iff_exists.mp (by decide +kernel)
  have hid : ((shiftRun [dismiss] 21).2.system.actor ⟨1⟩).id = "c" := by decide +kernel
  rw [System.actor_eq ha] at hid
  have hfound : ∃ x ∈ (shiftRun [dismiss] 21).2.consumed? ⟨0⟩,
      x.2.1 ∈ toldOn (shiftRun [dismiss] 21).1 ⟨1⟩ ∧ .stop ⟨1⟩ ∉ x.2.2.scope.effects ∧
        ∀ entry ∈ x.2.2.scope.system.actors,
          entry.1 < (shiftRun [dismiss] 21).2.system.nextSession := by
    decide +kernel
  obtain ⟨⟨m, event, w⟩, hconsumed, hevent, hnostop, hnone⟩ := hfound
  obtain ⟨hreports, hkept⟩ :=
    completion_finds_child rfl hrun ha hevent (consumes_of_consumed? hconsumed)
  rw [hid] at hreports hkept
  have hopened : (shiftOpen [dismiss]).2 ∈ (shiftRun [dismiss] 21).1 :=
    mem_goOn List.mem_cons_self 21
  have hchild : ("c", ⟨1⟩) ∈ ((shiftOpen [dismiss]).2.system.actor ⟨0⟩).snapshot.children := by
    decide +kernel
  refine ⟨_, hconsumed, hreports, ?_⟩
  rcases hkept _ hopened hchild with hnow | hstop | hreplaced | ⟨after, -, hafter, hgone⟩
  · exact hnow
  · exact absurd hstop hnostop
  · exact absurd hreplaced (System.not_replaces hnone _ _)
  · have horders : ∀ e ∈ (shiftRun [dismiss] 21).2 :: (shiftRun [dismiss] 21).1,
        ¬e.Orders ⟨0⟩ ⟨1⟩ := by
      decide +kernel
    have htakes : ∀ e ∈ (shiftRun [dismiss] 21).1, ∀ event ∈ e.taking ⟨0⟩,
        ¬event.Reports ("c", ⟨1⟩) := by
      decide +kernel
    have hnew : ∀ entry ∈ (shiftRun [dismiss] 21).2.system.actors,
        entry.1 < (shiftOpen [dismiss]).2.system.nextSession := by
      decide +kernel
    cases hgone with
    | stopped he h => exact absurd h (horders _ (List.cons_subset_cons _ hafter he))
    | reported he htaking h => exact absurd h (htakes _ (hafter he) _ htaking)
    | replaced h => exact absurd h (System.not_replaces hnew _ _)

set_option maxRecDepth 100000 in
/-- A machine takes a transition for the end of an invocation that was another one: an office that
begins anew while its worker finishes closes, although its new worker has not finished. -/
theorem stale_completion_taken : ¬∀ (past : List Delivery) (d : Delivery) (p c : Session)
    (a : Actor) (m : Machine) (event : Event) (w : Work), (done {}).Run past d →
    d.system.actor? c = some a → event ∈ toldOn past c → d.Consumes p m event w →
    ∀ t ∈ answers m event w, Awaits m t a.id → w.snapshot.child? a.id = some c := by
  intro hall
  have hrun := @run_shift [renew, dismiss] 39 (by decide +kernel)
  obtain ⟨a, ha⟩ : ∃ a, (shiftRun [renew, dismiss] 39).2.system.actor? ⟨1⟩ = some a :=
    Option.isSome_iff_exists.mp (by decide +kernel)
  have hid : ((shiftRun [renew, dismiss] 39).2.system.actor ⟨1⟩).id = "c" := by decide +kernel
  have hlate : ∃ x ∈ (shiftRun [renew, dismiss] 39).2.consumed? ⟨0⟩,
      x.2.1 ∈ toldOn (shiftRun [renew, dismiss] 39).1 ⟨1⟩ ∧
        (∃ t ∈ answers x.1 x.2.1 x.2.2, Awaits x.1 t "c") ∧
          x.2.2.snapshot.child? "c" ≠ some ⟨1⟩ := by
    decide +kernel
  obtain ⟨⟨m, event, w⟩, hconsumed, hevent, ⟨t, ht, hawaits⟩, hother⟩ := hlate
  rw [System.actor_eq ha] at hid
  exact hother (hid ▸ hall _ _ ⟨0⟩ ⟨1⟩ a m event w hrun ha hevent
    (consumes_of_consumed? hconsumed) t ht (hid ▸ hawaits))

end Delivery

end Statechart
