import Statechart.Proofs.Aliveness
import Statechart.Proofs.Invocations
import Statechart.Proofs.Newcomers

/-!
# Abandoned steps

When a machine cannot take an event the step is abandoned: the actor keeps its snapshot as that of
one that has failed, and nothing that the step has asked for is done (`Delivery.step_abandoned`).
What cannot be taken back is that actors have been made, and with them that a system id has gone
over to one of them (`Delivery.abandoned_step_renames`).
-/

namespace Statechart

/-- To modify an actor changes nothing else. -/
theorem System.modify_rest (sys : System) (s : Session) (f : Actor → Actor) :
    sys.modify s f = { sys with actors := (sys.modify s f).actors } := by
  unfold modify
  split <;> rfl

namespace Delivery

/-- The actor that is found by a system id at this moment. -/
def found (d : Delivery) (id : String) : Option Session :=
  System.find? { d.system with pins := pins d.frames } id

/-- The step of a machine has been abandoned. Nothing is left of it but the failure and the actors
that it has made. -/
structure Abandons (d : Delivery) (p : Session) (s : MachineSnapshot) (e : ActorError)
    (d' : Delivery) : Prop where
  /-- The snapshot stays, but for its status and its error. -/
  actor : ∃ a, d.system.actor? p = some a ∧ d'.system.actor? p = some { a with
    mailbox := a.mailbox.next.1
    snapshot := .machine { s with status := .error, error := some e.toJson } }
  others : ∀ t a, t ≠ p → d.system.actor? t = some a → d'.system.actor? t = some a
  /-- No actor that has been made is started. -/
  made : ∀ t a, d'.system.actor? t = some a → d.system.actor? t = some a ∨ t = p ∨
    d.system.nextSession ≤ t.number ∧ a.mailbox = {}
  /-- No effect is to be carried out. -/
  frames : ∃ rest keeps, d.frames = .drain p :: rest ∧ d'.frames =
    [.effects p [],
      .notify (d.system.actor p).observers
        (.next (.machine { s with status := .error, error := some e.toJson })),
      .settle p (.machine { s with status := .error, error := some e.toJson }) (some e),
      .keep keeps, .drain p] ++ rest
  /-- Clock, timers and all else stay, and nothing has become visible but notices. -/
  system : d'.system = { d.system with
    actors := d'.system.actors, registered := d'.system.registered
    systemIds := d'.system.systemIds, nextSession := d'.system.nextSession
    pins := d'.system.pins, records := d'.system.records }
  notices : ∃ ns : List Notice, d'.system.records = ns.map .notice ++ d.system.records
  /-- Who was found by a system id still is, unless it has gone over to an actor that the step has
  made. -/
  found : ∀ id t, d.found id = some t → d'.found id = some t ∨ d.system.TakenOver d'.system id

variable {d : Delivery} {past : List Delivery} {sys : System} {p : Session} {m : Machine}
  {s : MachineSnapshot} {event : Event} {scope : Scope} {e : ActorError}

/-- The step in which an actor takes an event. -/
theorem step_taking (htaking : d.taking p = some event) : ∃ rest, d.frames = .drain p :: rest ∧
    d.step = ((process (d.stepScope p).system p event).before [.drain p]).before rest := by
  unfold taking takes at htaking
  split at htaking
  · rename_i t htop
    obtain ⟨rfl, hhead⟩ := Option.ite_none_right_eq_some.mp htaking
    obtain ⟨rest, hframes⟩ := List.head?_eq_some_iff.mp htop
    refine ⟨rest, hframes, ?_⟩
    obtain ⟨queue, hqueue⟩ := List.head?_eq_some_iff.mp hhead
    have hnext : (System.actor { d.system with pins := pins d.frames } t).mailbox.next =
        ((d.system.actor t).mailbox.next.1, some event) := by
      show (d.system.actor t).mailbox.next = _
      rw [Mailbox.next, hqueue]
    have hscope : (d.stepScope t).system =
        System.setMailbox { d.system with pins := pins d.frames } t
          (d.system.actor t).mailbox.next.1 := rfl
    unfold step
    simp only [hframes] at hnext hscope ⊢
    rw [frame, hscope]
    simp only [hnext]
  · cases htaking

/-- Who takes an event exists. -/
theorem exists_taking (hd : d.Sound) (htaking : d.taking p = some event) :
    ∃ a, d.system.actor? p = some a := by
  obtain ⟨rest, hframes, -⟩ := step_taking htaking
  exact hd.known (.drain p) (by simp [hframes]) p _ rfl

theorem handleEvent_error {a : Actor} {sys : System} (ha : sys.actor p = a)
    (hactive : a.snapshot.status = .active)
    (hfails : a.logic.transition spawn (scopeOf sys a) a.snapshot event = (scope, .error e)) :
    handleEvent sys p event = (abandon scope.system p a.snapshot e).before
      [.keep (a.snapshot.sessions ++ scope.effects.flatMap Effect.keeps)] := by
  subst ha
  rw [handleEvent]
  simp only
  rw [if_pos hactive]
  simp only [hfails]

/-- The step in which the machine of an actor cannot take an event. -/
theorem step_failing (hd : d.Sound) (htaking : d.taking p = some event)
    (hmachine : d.machine? p = some (m, s)) (hinit : event.name ≠ Event.initName)
    (hstop : event.name ≠ Event.stopName) (hactive : s.status = .active)
    (hfails : m.transition (d.stepScope p) s event = (scope, .error e)) :
    ∃ rest keeps, d.frames = .drain p :: rest ∧ d.step =
      (((abandon scope.system p (.machine s) e).before [.keep keeps]).before [.drain p]).before
        rest := by
  obtain ⟨rest, hframes, hstep⟩ := step_taking htaking
  obtain ⟨a, ha⟩ := exists_taking hd htaking
  obtain ⟨sys, -, hscope, hputs⟩ := stepScope_puts hd ha
  rw [machine?, System.actor_eq ha] at hmachine
  split at hmachine <;> cases hmachine
  rename_i definition implementations hlogic hs
  have htransition : a.logic.transition spawn (d.stepScope p) a.snapshot event =
      (scope, .error e) := by
    rw [hlogic, hs, Logic.transition, hfails]
    rfl
  have hstatus : a.snapshot.status = .active := by
    rw [hs]
    exact hactive
  refine ⟨rest, (Snapshot.machine s).sessions ++ scope.effects.flatMap Effect.keeps, hframes, ?_⟩
  rw [hstep, process, if_neg hinit, if_neg hstop,
    handleEvent_error hputs.actor_self hstatus (hscope ▸ htransition), hs]

/-- Who is found by a system id still is when no less is kept and the system id has not moved. -/
theorem found_mono {d' : Delivery} {id : String} {t : Session} (h : d.found id = some t)
    (hid : SortedMap.find? id d'.system.systemIds = SortedMap.find? id d.system.systemIds)
    (hregistered : ∀ n ∈ d.system.registered, n ∈ d'.system.registered)
    (hkept : d'.system.kept = d.system.kept) (hheld : d'.system.held = d.system.held)
    (hscheduler : d'.system.scheduler = d.system.scheduler)
    (hpins : pins d.frames ⊆ pins d'.frames)
    (hkeeps : ∀ t a, d.system.actor? t = some a →
      ∃ a', d'.system.actor? t = some a' ∧ a.keeps ⊆ a'.keeps) :
    d'.found id = some t := by
  obtain ⟨u, hu, hlookup⟩ := Option.bind_eq_some_iff.mp h
  obtain ⟨rfl, hmem, halive⟩ := System.lookup?_eq_some.mp hlookup
  refine Option.bind_eq_some_iff.mpr ⟨u, hid.trans hu, ?_⟩
  refine System.lookup?_eq_some.mpr ⟨rfl, hregistered _ hmem, halive.mono ?_ hkeeps⟩
  simp only [System.roots, hkept, hheld, hscheduler]
  intro r hr
  simp only [List.mem_append] at hr ⊢
  rcases hr with (hr | hr) | hr
  · exact .inl (.inl hr)
  · exact .inl (.inr (hpins hr))
  · exact .inr hr

/-- The system in which the machine of an actor takes an event is as it was, but for the mailbox. -/
theorem stepScope_rest (d : Delivery) (p : Session) : (d.stepScope p).system = { d.system with
    actors := (d.stepScope p).system.actors, pins := pins d.frames } :=
  System.modify_rest { d.system with pins := pins d.frames } _ _

/-- What the step of a machine does at once to the system: it makes actors and gives notices. -/
theorem transition_makes {result : Except ActorError MachineSnapshot} (hd : d.Sound) {a : Actor}
    (ha : d.system.actor? p = some a) (hmachine : d.machine? p = some (m, s))
    (h : m.transition (d.stepScope p) s event = (scope, result)) :
    a.snapshot = .machine s ∧ (d.stepScope p).system.Thrives scope.system ∧
      (d.stepScope p).system.Peopled scope.system := by
  obtain ⟨sys, hquiet, -, hputs⟩ := stepScope_puts hd ha
  have ha' : sys.actor? p = some a := (hquiet.actor? p).trans ha
  have hsys := hd.system.quiet hquiet
  have hsound := hsys.puts hputs ha' rfl (hsys.suits p a ha')
  rw [machine?, System.actor_eq ha] at hmachine
  split at hmachine <;> cases hmachine
  rename_i hs
  exact ⟨hs, Machine.transition_thrives h sound_spawn hsound,
    Machine.transition_peopled h sound_spawn peoples_spawn hsound⟩

/-- A step has failed, and the system is as the machine has left it, but for the actor. -/
structure Lapses (d : Delivery) (p : Session) (a : Actor) (s : MachineSnapshot) (e : ActorError)
    (sys : System) : Prop where
  known : d.system.actor? p = some a
  snapshot : a.snapshot = .machine s
  before : ∀ t, t ≠ p → (d.stepScope p).system.actor? t = d.system.actor? t
  next : (d.stepScope p).system.nextSession = d.system.nextSession
  thrives : (d.stepScope p).system.Thrives sys
  peopled : (d.stepScope p).system.Peopled sys
  puts : sys.Puts p { a with
    mailbox := a.mailbox.next.1
    snapshot := .machine { s with status := .error, error := some e.toJson } } d.step.system
  rest : d.step.system = { sys with actors := d.step.system.actors }
  frames : ∃ rest keeps, d.frames = .drain p :: rest ∧ d.step.frames =
    [.effects p [],
      .notify (d.system.actor p).observers
        (.next (.machine { s with status := .error, error := some e.toJson })),
      .settle p (.machine { s with status := .error, error := some e.toJson }) (some e),
      .keep keeps, .drain p] ++ rest

theorem step_lapses (hd : d.Sound) (htaking : d.taking p = some event)
    (hmachine : d.machine? p = some (m, s)) (hinit : event.name ≠ Event.initName)
    (hstop : event.name ≠ Event.stopName) (hactive : s.status = .active)
    (hfails : m.transition (d.stepScope p) s event = (scope, .error e)) :
    ∃ a, d.Lapses p a s e scope.system := by
  obtain ⟨rest, keeps, hframes, hstep⟩ :=
    step_failing hd htaking hmachine hinit hstop hactive hfails
  obtain ⟨a, ha⟩ := exists_taking hd htaking
  obtain ⟨sys₀, hquiet, -, hbegin⟩ := stepScope_puts hd ha
  -- an abandoned step may have made actors, which stay
  obtain ⟨hs, hthrives, hpeopled⟩ := transition_makes hd ha hmachine hfails
  have hmade := hthrives.grown.kept p _ hbegin.self
  exact ⟨a, {
    known := ha
    snapshot := hs
    before := fun t ht => (hbegin.other ht).trans (hquiet.actor? t)
    next := hbegin.next.trans hquiet.next
    thrives := hthrives
    peopled := hpeopled
    puts := by
      rw [hstep]
      exact System.puts_setSnapshot hthrives.sound.keyed hmade _
    rest := by
      rw [hstep]
      exact System.modify_rest _ _ _
    frames := by
      refine ⟨rest, keeps, hframes, ?_⟩
      rw [hstep, System.actor_eq ha]
      simp only [abandon, commit, doing, before, System.actor_eq hmade]
      rfl }⟩

namespace Lapses

variable {a : Actor}

theorem others (h : d.Lapses p a s e sys) {t : Session} {b : Actor} (ht : t ≠ p)
    (hb : d.system.actor? t = some b) : d.step.system.actor? t = some b :=
  (h.puts.other ht).trans (h.thrives.grown.kept t b ((h.before t ht).trans hb))

/-- Whoever is there afterwards was there before, or has just been made. -/
theorem made (h : d.Lapses p a s e sys) {t : Session} {b : Actor}
    (hb : d.step.system.actor? t = some b) : d.system.actor? t = some b ∨ t = p ∨
      d.system.nextSession ≤ t.number ∧ b.mailbox = {} := by
  by_cases htp : t = p
  · exact .inr (.inl htp)
  · rcases h.thrives.grown.added t b ((h.puts.other htp).symm.trans hb) with hold | ⟨hlate, hnew⟩
    · exact .inl ((h.before t htp).symm.trans hold)
    · exact .inr (.inr ⟨h.next ▸ hlate, hnew⟩)

theorem system (h : d.Lapses p a s e sys) : d.step.system = { d.system with
    actors := d.step.system.actors, registered := d.step.system.registered
    systemIds := d.step.system.systemIds, nextSession := d.step.system.nextSession
    pins := d.step.system.pins, records := d.step.system.records } := by
  rw [h.rest, h.peopled.rest, stepScope_rest]

theorem notices (h : d.Lapses p a s e sys) :
    ∃ ns : List Notice, d.step.system.records = ns.map .notice ++ d.system.records := by
  obtain ⟨ns, hns⟩ := h.peopled.notices
  refine ⟨ns, ?_⟩
  rw [h.rest, hns, stepScope_rest]

/-- Every actor keeps its children. -/
theorem keeps (h : d.Lapses p a s e sys) {t : Session} {b : Actor}
    (hb : d.system.actor? t = some b) :
    ∃ b', d.step.system.actor? t = some b' ∧ b.keeps ⊆ b'.keeps := by
  by_cases htp : t = p
  · subst htp
    cases h.known.symm.trans hb
    refine ⟨_, h.puts.self, ?_⟩
    rw [Actor.keeps, h.snapshot]
    exact List.Subset.refl _
  · exact ⟨b, h.others htp hb, List.Subset.refl _⟩

theorem pins (h : d.Lapses p a s e sys) :
    Delivery.pins d.frames ⊆ Delivery.pins d.step.frames := by
  obtain ⟨rest, keeps, hframes, hframes'⟩ := h.frames
  intro u hu
  rw [hframes] at hu
  rw [hframes']
  rcases List.mem_append.mp hu with hu | hu
  · simp only [Frame.keeps, List.mem_singleton] at hu
    simp [Delivery.pins, Frame.keeps, hu]
  · exact List.mem_flatMap.mpr ((List.mem_flatMap.mp hu).imp fun f hf =>
      ⟨List.mem_append_right _ hf.1, hf.2⟩)

theorem found (h : d.Lapses p a s e sys) (hd : d.Sound) {id : String} {t : Session}
    (ht : d.found id = some t) :
    d.step.found id = some t ∨ d.system.TakenOver d.step.system id := by
  -- a system id stays with its actor, or has gone over to one that the step has made
  rcases h.peopled.systemIds id with hsame | ⟨u, b, hlate, hb, hid, hfind⟩
  · refine .inl (found_mono ht ?_ (fun n hn => ?_) ?_ ?_ ?_ h.pins fun u b => h.keeps)
    · rw [h.rest, hsame, stepScope_rest]
    · rw [h.rest]
      exact h.peopled.registered n (by rw [stepScope_rest]; exact hn)
    · rw [h.system]
    · rw [h.system]
    · rw [h.system]
  · refine .inr ⟨u, b, h.next ▸ hlate, (h.puts.other ?_).trans hb, hid, ?_⟩
    · rintro rfl
      exact absurd (hd.system.fresh _ a h.known) (Nat.not_lt.mpr (h.next ▸ hlate))
    · rw [h.rest]
      exact hfind

end Lapses

/-- A step that cannot take its event is abandoned: the actor keeps its snapshot as one that has
failed, no effect is carried out, and who is found by a system id still is, unless the step has made
an actor with that system id. -/
theorem step_abandoned (hnil : sys.actors = []) (h : (done sys).Run past d)
    (htaking : d.taking p = some event) (hmachine : d.machine? p = some (m, s))
    (hinit : event.name ≠ Event.initName) (hstop : event.name ≠ Event.stopName)
    (hactive : s.status = .active)
    (hfails : m.transition (d.stepScope p) s event = (scope, .error e)) :
    d.Abandons p s e d.step := by
  have hd := (h.reached (.fresh sys hnil)).sound
  obtain ⟨a, hlapses⟩ := step_lapses hd htaking hmachine hinit hstop hactive hfails
  exact {
    actor := ⟨a, hlapses.known, hlapses.puts.self⟩
    others := fun t b => hlapses.others
    made := fun t b => hlapses.made
    frames := hlapses.frames
    system := hlapses.system
    notices := hlapses.notices
    found := fun id t => hlapses.found hd }

/-! ## A system id that moves -/

/-- The error with which the machine of an actor cannot take its next event, if that is so. -/
def fails? (d : Delivery) (p : Session) : Option (MachineSnapshot × ActorError) := do
  let event ← d.taking p
  let (m, s) ← d.machine? p
  match m.transition (d.stepScope p) s event with
  | (_, .ok _) => none
  | (_, .error e) =>
      if event.name ≠ Event.initName ∧ event.name ≠ Event.stopName ∧ s.status = .active then
        some (s, e)
      else none

theorem fails_of_fails? (h : d.fails? p = some (s, e)) : ∃ event m scope,
    d.taking p = some event ∧ d.machine? p = some (m, s) ∧ event.name ≠ Event.initName ∧
      event.name ≠ Event.stopName ∧ s.status = .active ∧
        m.transition (d.stepScope p) s event = (scope, .error e) := by
  unfold fails? at h
  obtain ⟨event, htaking, h⟩ := Option.bind_eq_some_iff.mp h
  obtain ⟨⟨m, s⟩, hmachine, h⟩ := Option.bind_eq_some_iff.mp h
  simp only at h
  split at h
  · cases h
  · rename_i scope e' hfails
    obtain ⟨⟨hinit, hstop, hactive⟩, heq⟩ := Option.ite_none_right_eq_some.mp h
    cases heq
    exact ⟨event, m, scope, htaking, hmachine, hinit, hstop, hactive, hfails⟩

/-- Orders to hire a worker under a system id, and to tell somebody who is not there. -/
def rashOrders : List ActionConfig :=
  [.spawnChild "worker" (some "d") (some "desk") none, .sendTo "nobody" (.name "GO") none none]

/-- Whom the application holds makes no difference to the actors. -/
theorem quiet_hold (sys : System) (name : String) (t : Session) :
    sys.Quiet (sys.hold name t) := .of_eq rfl rfl rfl rfl

/-- What happens when somebody else has got a system id before an office takes its orders. -/
def rashRun (opened : List Delivery × Delivery) : List Delivery × Delivery :=
  let hired := done (spawn opened.2.system shiftWorker { systemId := some "desk" }).1
  let known := done (hired.system.hold "desk" ⟨2⟩)
  (known :: hired :: opened.2 :: opened.1, call known.system ⟨0⟩ (.send (.named "GO")))

theorem run_rash {opened : List Delivery × Delivery} (h : (done {}).Run opened.1 opened.2)
    (hidle : opened.2.frames.isEmpty = true) :
    (done {}).Run (rashRun opened).1 (rashRun opened).2 := by
  have hhired := h.next
    (.make _ (List.isEmpty_iff.mp hidle) shiftWorker { systemId := some "desk" })
  have hknown := hhired.next (.arrange _ rfl _ (quiet_hold _ "desk" ⟨2⟩))
  exact hknown.next (.call _ rfl ⟨0⟩ (.send (.named "GO")))

/-- The office with its orders. -/
def rashOffice : List Delivery × Delivery := rashRun (shiftOpen rashOrders)

theorem run_rashOffice (hidle : (shiftOpen rashOrders).2.frames.isEmpty = true) :
    (done {}).Run rashOffice.1 rashOffice.2 :=
  run_rash (run_startRun (shiftOffice rashOrders) 20) hidle

set_option maxRecDepth 100000 in
/-- An office that cannot carry out its orders fails, and its step is abandoned. -/
theorem rash_office_fails : ∃ s e, rashOffice.2.Abandons ⟨0⟩ s e rashOffice.2.step ∧
    rashOffice.2.system.TakenOver rashOffice.2.step.system "desk" := by
  have hrun := run_rashOffice (by decide +kernel)
  obtain ⟨⟨s, e⟩, hfails⟩ : ∃ x, rashOffice.2.fails? ⟨0⟩ = some x :=
    Option.isSome_iff_exists.mp (by decide +kernel)
  obtain ⟨event, m, scope, htaking, hmachine, hinit, hstop, hactive, hfails⟩ :=
    fails_of_fails? hfails
  have habandons := step_abandoned rfl hrun htaking hmachine hinit hstop hactive hfails
  have hfound : rashOffice.2.found "desk" = some ⟨2⟩ ∧
      rashOffice.2.step.found "desk" ≠ some ⟨2⟩ := by
    decide +kernel
  exact ⟨s, e, habandons, (habandons.found "desk" ⟨2⟩ hfound.1).resolve_left hfound.2⟩

set_option maxRecDepth 100000 in
/-- An abandoned step can leave a trace: somebody who has nothing to do with it is no longer found
by a system id. -/
theorem abandoned_step_renames : ¬∀ (past : List Delivery) (d : Delivery) (p : Session)
    (m : Machine) (s : MachineSnapshot) (event : Event) (scope : Scope) (e : ActorError),
    (done {}).Run past d → d.taking p = some event → d.machine? p = some (m, s) →
    event.name ≠ Event.initName → event.name ≠ Event.stopName → s.status = .active →
    m.transition (d.stepScope p) s event = (scope, .error e) →
    ∀ id t, d.found id = some t → t ≠ p → (d.system.actor t).parent = none →
      d.step.found id = some t := by
  intro hall
  have hrun := run_rashOffice (by decide +kernel)
  obtain ⟨⟨s, e⟩, hfails⟩ : ∃ x, rashOffice.2.fails? ⟨0⟩ = some x :=
    Option.isSome_iff_exists.mp (by decide +kernel)
  obtain ⟨event, m, scope, htaking, hmachine, hinit, hstop, hactive, hfails⟩ :=
    fails_of_fails? hfails
  have hfound : rashOffice.2.found "desk" = some ⟨2⟩ ∧
      (rashOffice.2.system.actor ⟨2⟩).parent = none ∧
        rashOffice.2.step.found "desk" ≠ some ⟨2⟩ := by
    decide +kernel
  exact hfound.2.2 (hall _ _ ⟨0⟩ m s event scope e hrun htaking hmachine hinit hstop hactive hfails
    "desk" ⟨2⟩ hfound.1 (by decide) hfound.2.1)

end Delivery

end Statechart
