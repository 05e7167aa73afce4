import Statechart.Proofs.Finishing

/-!
# Run to completion

A macrostep goes by phases: first the transitions that need no event, then the internal events one
by one, and the external event only when nothing else is left. The queue grows while it is worked
off. `InOrder` says how the events taken so far and those raised so far hang together, and each
phase keeps it (`Phase.inOrder`). Phases lead on in one way only (`phase_unique`), so what a
macrostep has taken at its end it has taken on this way (`Comes.taken`).
-/

namespace Statechart

open Relation (ReflTransGen)

/-- The event that was taken. -/
def Mark.handled? : Mark → Option Event
  | .handled event _ => some event
  | _ => none

theorem Mark.Plain.silent {k : Mark} (h : k.Plain) : k.handled? = none ∧ k.raised? = none := by
  cases k <;> first | exact ⟨rfl, rfl⟩ | cases h

namespace Work

/-- The events that have been taken, in order. -/
def handled (w : Work) : List Event := w.marks.filterMap Mark.handled?

/-- The events that have been put on the internal queue, in order. -/
def raised (w : Work) : List Event := w.marks.filterMap Mark.raised?

/-- Some events are raised, and none is taken. -/
structure Raises (w w' : Work) (new : List Event) : Prop where
  handled : w'.handled = w.handled
  raised : w'.raised = w.raised ++ new
  internal : w'.internal = w.internal ++ new

variable {w w₁ w' : Work} {k : Mark}

theorem handled_cons (h : w'.journal = k :: w.journal) :
    w'.handled = w.handled ++ k.handled?.toList := by
  rw [handled, handled, marks, marks, h, List.reverse_cons, List.filterMap_append]
  cases hk : k.handled? <;> simp [hk]

theorem raised_cons (h : w'.journal = k :: w.journal) :
    w'.raised = w.raised ++ k.raised?.toList := by
  rw [raised, raised, marks, marks, h, List.reverse_cons, List.filterMap_append]
  cases hk : k.raised? <;> simp [hk]

theorem raises_nil (hqueue : w'.internal = w.internal) (hjournal : w'.journal = w.journal) :
    w.Raises w' [] where
  handled := by rw [handled, handled, marks, marks, hjournal]
  raised := by rw [raised, raised, marks, marks, hjournal, List.append_nil]
  internal := by rw [hqueue, List.append_nil]

/-- One more mark raises its event if it is of a raised event. -/
theorem raises_cons {new : List Event} (hjournal : w'.journal = k :: w.journal)
    (hqueue : w'.internal = w.internal ++ new) (hk : k.handled? = none)
    (hnew : k.raised?.toList = new) : w.Raises w' new where
  handled := by rw [handled_cons hjournal, hk, Option.toList_none, List.append_nil]
  raised := by rw [raised_cons hjournal, hnew]
  internal := hqueue

theorem Raises.trans {new new' : List Event} (h : w.Raises w₁ new) (h' : w₁.Raises w' new') :
    w.Raises w' (new ++ new') where
  handled := h'.handled.trans h.handled
  raised := by rw [h'.raised, h.raised, List.append_assoc]
  internal := by rw [h'.internal, h.internal, List.append_assoc]

theorem Queues.raises (h : w.Queues w') : ∃ new, w.Raises w' new := by
  cases h with
  | still hqueue hjournal => exact ⟨_, raises_nil hqueue hjournal⟩
  | raised event hqueue hjournal => exact ⟨_, raises_cons hjournal hqueue rfl rfl⟩
  | failed e hqueue hjournal =>
      -- the failure is told of just before its event is raised
      have hfailed : w.Raises { w with journal := .failed e :: w.journal } [] :=
        raises_cons rfl (List.append_nil _).symm rfl rfl
      exact ⟨_, hfailed.trans (raises_cons hjournal hqueue rfl rfl)⟩

end Work

namespace Machine

open StepM

variable {m : Machine} {w w' : Work} {event : Event} {p p' : Progress}

/-! ## Phases -/

theorem Records.raises (h : Records w w') : ∃ new, w.Raises w' new := by
  rcases h.queues with hqueues | ⟨hqueue, k, hk, hjournal⟩
  · exact hqueues.raises
  · exact ⟨[], Work.raises_cons hjournal (by rw [hqueue, List.append_nil]) hk.silent.1
      (by rw [hk.silent.2, Option.toList_none])⟩

/-- Where events are only raised, none is taken, and what is raised waits. -/
theorem raises_of_records {α : Type} {x : StepM α} {a : α} (hx : Runs Records x)
    (h : x w = .ok a w') : ∃ new, w.Raises w' new := by
  have hrun := hx w
  rw [after_of_ok h] at hrun
  clear h
  induction hrun with
  | refl => exact ⟨[], Work.raises_nil rfl rfl⟩
  | tail _ hstep ih =>
      obtain ⟨new, hnew⟩ := ih
      obtain ⟨new', hnew'⟩ := hstep.raises
      exact ⟨new ++ new', hnew.trans hnew'⟩

theorem microstep_raises {ts : List Nat} (h : m.microstep ts event w = .ok () w') :
    ∃ new, w.Raises w' new := raises_of_records records_microstep h

/-- After the mark that an event is taken, a step may raise events. -/
theorem handle_raises (h : m.handle event w = .ok () w') :
    ∃ ts new, Work.Raises { w with journal := .handled event ts :: w.journal } w' new := by
  obtain ⟨ts, -, ⟨rfl, -, rfl⟩ | ⟨rfl, -, rfl⟩ | ⟨-, hstep⟩⟩ := handle_ok h
  · exact ⟨[], [], Work.raises_nil rfl rfl⟩
  · exact ⟨[], [], Work.raises_nil rfl rfl⟩
  · exact ⟨ts, microstep_raises hstep⟩

/-- Exactly the given event is taken, and what is raised for it waits. -/
theorem handle_takes (h : m.handle event w = .ok () w') :
    ∃ new, w'.handled = w.handled ++ [event] ∧ w'.raised = w.raised ++ new ∧
      w'.internal = w.internal ++ new := by
  obtain ⟨ts, new, hnew⟩ := handle_raises h
  refine ⟨new, ?_, ?_, hnew.internal⟩
  · rw [hnew.handled, Work.handled_cons (w := w) rfl]
    rfl
  · rw [hnew.raised, Work.raised_cons (w := w) rfl]
    exact congrArg (· ++ new) (List.append_nil _)

/-- The events of a macrostep for an external event are in order. What was raised has been taken in
the same order, or waits; the external event still waits outside, or has been taken among the
others. -/
structure InOrder (external : Event) (p : Progress) : Prop where
  events : p.pending = some external ∧ p.work.raised = p.work.handled ++ p.work.internal ∨
    p.pending = none ∧ ∃ earlier later, p.work.handled = earlier ++ external :: later ∧
      p.work.raised = earlier ++ later ++ p.work.internal
  last : p.last = p.work.handled.getLastD external

/-- Where a phase takes an event from: the front of the queue, or, when that is empty, outside. -/
inductive Offers (p p' : Progress) (e : Event) : Prop
  | queue (rest : List Event) (hnext : p.work.internal = e :: rest)
      (hpending : p'.pending = p.pending)
  | outside (hpending : p.pending = some e) (hempty : p.work.internal = [])
      (htaken : p'.pending = none)

/-- A phase takes no event, or one that is due, under which no transition is left that needs no
event. -/
theorem Phase.takes (h : m.Phase p p') :
    (p'.pending = p.pending ∧ p'.last = p.last ∧ ∃ new, p.work.Raises p'.work new) ∨
      m.definition.selectEventless (m.situation p.work.snapshot) p.last = .ok [] ∧
        p'.work.handled = p.work.handled ++ [p'.last] ∧ Offers p p' p'.last ∧
          ∃ new, p'.work.raised = p.work.raised ++ new ∧
            p'.work.internal = p.work.internal.tail ++ new := by
  cases h with
  | @eventless ts w _ _ _ hstep =>
      obtain ⟨new, hnew⟩ := microstep_raises hstep
      have hmark : p.work.Raises
          { p.work with journal := .eventless p.last ts :: p.work.journal } [] :=
        Work.raises_cons rfl (List.append_nil _).symm rfl rfl
      exact .inl ⟨rfl, rfl, _, hmark.trans hnew⟩
  | @internal next rest w _ hquiet hnext hhandle =>
      obtain ⟨new, hhandled, hraised, hinternal⟩ := handle_takes hhandle
      exact .inr ⟨hquiet, hhandled, .queue rest hnext rfl, new, hraised,
        by rw [hnext, hinternal]; rfl⟩
  | @external event w₁ w hpending hrests hrelease hhandle =>
      obtain ⟨children, rfl⟩ := releaseCompleted_ok hrelease
      obtain ⟨new, hhandled, hraised, hinternal⟩ := handle_takes hhandle
      exact .inr ⟨hrests.eventless, hhandled, .outside hpending hrests.internal rfl, new, hraised,
        by rw [hinternal, hrests.internal]; rfl⟩

/-- Each phase leaves the events in order. -/
theorem Phase.inOrder {external : Event} (h : m.Phase p p') (hp : InOrder external p) :
    InOrder external p' := by
  rcases h.takes with ⟨hpending, hlast, new, hnew⟩ | ⟨-, hhandled, hfrom, new, hraised, hinternal⟩
  · refine ⟨?_, by rw [hlast, hp.last, hnew.handled]⟩
    rw [hpending, hnew.handled, hnew.raised, hnew.internal]
    rcases hp.events with ⟨hwaits, hevents⟩ | ⟨hnone, earlier, later, hsplit, hevents⟩
    · exact .inl ⟨hwaits, by rw [hevents, List.append_assoc]⟩
    · exact .inr ⟨hnone, earlier, later, hsplit, by rw [hevents]; simp⟩
  · refine ⟨?_, by rw [hhandled, List.getLastD_concat]⟩
    rw [hhandled, hraised, hinternal]
    rcases hfrom with ⟨rest, hnext, hpending⟩ | ⟨hwaits, hempty, htaken⟩
    · rw [hpending, hnext, List.tail_cons]
      rcases hp.events with ⟨hwaits, hevents⟩ | ⟨hnone, earlier, later, hsplit, hevents⟩
      · exact .inl ⟨hwaits, by rw [hevents, hnext]; simp⟩
      · exact .inr ⟨hnone, earlier, later ++ [p'.last], by rw [hsplit]; simp,
          by rw [hevents, hnext]; simp⟩
    · rcases hp.events with ⟨hwaits', hevents⟩ | ⟨hnone, -⟩
      · obtain rfl : p'.last = external := by simpa [hwaits] using hwaits'
        exact .inr ⟨htaken, p.work.handled, [], rfl, by rw [hevents, hempty]; simp⟩
      · simp [hnone] at hwaits

/-! ## The way of a macrostep -/

/-- Phases lead on in one way only. -/
theorem phase_unique : Relator.RightUnique m.Phase := by
  intro p p₁ p₂ h₁ h₂
  -- the three kinds exclude each other by what is selected without an event
  have hselected : ∀ {ts ts' : List Nat},
      m.definition.selectEventless (m.situation p.work.snapshot) p.last = .ok ts →
        m.definition.selectEventless (m.situation p.work.snapshot) p.last = .ok ts' → ts = ts' :=
    fun h h' => Except.ok.inj (h.symm.trans h')
  cases h₁ with
  | eventless _ hselect hsome hstep =>
      cases h₂ with
      | eventless _ hselect' _ hstep' =>
          obtain rfl := hselected hselect hselect'
          cases hstep.symm.trans hstep'
          rfl
      | internal _ hquiet => exact absurd (hselected hselect hquiet) hsome
      | external _ hrests => exact absurd (hselected hselect hrests.eventless) hsome
  | internal _ hquiet hnext hhandle =>
      cases h₂ with
      | eventless _ hselect hsome => exact absurd (hselected hselect hquiet) hsome
      | internal _ _ hnext' hhandle' =>
          cases hnext.symm.trans hnext'
          cases hhandle.symm.trans hhandle'
          rfl
      | external _ hrests => cases hnext.symm.trans hrests.internal
  | external hpending hrests hrelease hhandle =>
      cases h₂ with
      | eventless _ hselect hsome => exact absurd (hselected hselect hrests.eventless) hsome
      | internal _ _ hnext => cases hnext.symm.trans hrests.internal
      | external hpending' _ hrelease' hhandle' =>
          cases hpending.symm.trans hpending'
          cases hrelease.symm.trans hrelease'
          cases hhandle.symm.trans hhandle'
          rfl

/-- No phase follows the end. -/
theorem Ended.no_phase (h : m.Ended p) (p' : Progress) : ¬ m.Phase p p' := by
  intro hphase
  rcases h with hstatus | ⟨hnone, hrests⟩
  · cases hphase with
    | eventless hactive => exact hstatus hactive
    | internal hactive => exact hstatus hactive
    | external _ hrests => exact hstatus hrests.active
  · cases hphase with
    | eventless _ hselect hsome =>
        exact hsome (Except.ok.inj (hselect.symm.trans hrests.eventless))
    | internal _ _ hnext => cases hnext.symm.trans hrests.internal
    | external hpending => cases hpending.symm.trans hnone

/-- A macrostep that goes through comes to its end by phases. -/
theorem settle_ends {fuel : Nat} {pending : Option Event} {last : Event}
    (h : m.settle fuel pending last w = .ok () w') :
    ∃ fin, ReflTransGen m.Phase ⟨pending, last, w⟩ fin ∧ m.Ended fin ∧ fin.work = w' := by
  induction fuel generalizing pending last w with
  | zero =>
      obtain ⟨_, _, -, h⟩ := bind_eq_ok h
      cases h
  | succ fuel ih =>
      rcases settle_phase (p := ⟨pending, last, w⟩) h with ⟨rfl, hend⟩ | ⟨p', hphase, h⟩
      · exact ⟨_, .refl, hend, rfl⟩
      · obtain ⟨fin, hway, hend⟩ := ih h
        exact ⟨fin, .head hphase hway, hend⟩

/-- Where the macrostep for an event sets out. -/
def outset (scope : Scope) (s : MachineSnapshot) (event : Event) : Progress where
  pending := some event
  last := event
  work := begin { scope with system := scope.system.pinning (s.children.map Prod.snd) } s

variable (m) in
/-- What the macrostep for an event comes to by phases. -/
def Comes (scope : Scope) (s : MachineSnapshot) (event : Event) (p : Progress) : Prop :=
  ReflTransGen m.Phase (outset scope s event) p

variable {scope : Scope} {s : MachineSnapshot}

theorem Comes.inOrder (h : m.Comes scope s event p) : InOrder event p := by
  induction h with
  | refl => exact ⟨.inl ⟨rfl, rfl⟩, rfl⟩
  | tail _ hphase ih => exact hphase.inOrder ih

/-- Whatever has been taken was taken in a phase on the way. -/
theorem Comes.taken (h : m.Comes scope s event p) {earlier later : List Event} {e : Event}
    (hsplit : p.work.handled = earlier ++ e :: later) :
    ∃ q q', m.Comes scope s event q ∧ m.Phase q q' ∧ q.work.handled = earlier ∧ q'.last = e ∧
      q'.work.handled = earlier ++ [e] := by
  induction h generalizing later with
  | refl => simp [outset, begin, Work.handled, Work.marks] at hsplit
  | @tail q q' hway hphase ih =>
      rcases hphase.takes with ⟨-, -, new, hnew⟩ | ⟨-, hhandled, -⟩
      · exact ih (hnew.handled.symm.trans hsplit)
      · rw [hhandled] at hsplit
        rcases List.eq_nil_or_concat' later with rfl | ⟨later, last, rfl⟩
        · obtain ⟨hearlier, hlast⟩ := List.append_inj' hsplit rfl
          obtain rfl : q'.last = e := by simpa using hlast
          exact ⟨q, q', hway, hphase, hearlier, rfl, by rw [hhandled, hearlier]⟩
        · have hconcat : q.work.handled ++ [q'.last] = earlier ++ e :: later ++ [last] := by
            rw [hsplit]
            simp
          exact ih (List.append_inj' hconcat rfl).1

/-! ## Whole macrosteps -/

/-- What is taken for an event is a beginning of all that was raised, in the order in which it was
raised, with the external event once among it; while the machine stays active it is all of it. Each
event is taken when it is the next one that waits, the external one when nothing waits, and only when
no transition is enabled any more without an event. Nothing is left of either at the end of an active
machine, and nothing follows once the machine is no longer active. -/
theorem runs_to_completion {scope scope' : Scope} {s next : MachineSnapshot} {event : Event}
    (hactive : s.status = .active) (h : m.transition scope s event = (scope', .ok next)) :
    ∃ fin : Progress, m.Comes scope s event fin ∧
      m.transitionRun scope s event = .ok () fin.work ∧ next = finish (some s) fin.work.snapshot ∧
      (∃ earlier later,
        fin.work.handled ++ (fin.work.internal ++ fin.pending.toList) =
            earlier ++ event :: later ∧
          fin.work.raised = earlier ++ later) ∧
      (next.status = .active → fin.work.internal = [] ∧ fin.pending = none ∧
        m.definition.selectEventless (m.situation next) (fin.work.handled.getLastD event) =
          .ok []) ∧
      (∀ earlier e later, fin.work.handled = earlier ++ e :: later →
        ∃ p p', m.Comes scope s event p ∧ m.Phase p p' ∧ p.work.handled = earlier ∧
          p'.work.handled = earlier ++ [e] ∧ Offers p p' e ∧
            m.definition.selectEventless (m.situation p.work.snapshot) (earlier.getLastD event) =
              .ok []) ∧
      ∀ p, m.Comes scope s event p → p.work.snapshot.status ≠ .active → p = fin := by
  rw [transition, if_pos hactive] at h
  obtain ⟨w, hrun, rfl⟩ := outcome_ok h
  obtain ⟨fin, hway, hend, rfl⟩ := settle_ends hrun
  have hcomes : m.Comes scope s event fin := hway
  have horder := hcomes.inOrder
  refine ⟨fin, hcomes, hrun, rfl, ?_, fun hnext => ?_, fun earlier e later hsplit => ?_,
    fun p hp hstatus => ?_⟩
  · rcases horder.events with ⟨hwaits, hevents⟩ | ⟨hnone, earlier, later, hsplit, hevents⟩
    · exact ⟨fin.work.handled ++ fin.work.internal, [], by rw [hwaits]; simp,
        by simpa using hevents⟩
    · exact ⟨earlier, later ++ fin.work.internal, by rw [hnone, hsplit]; simp,
        by simpa using hevents⟩
  · obtain ⟨hnone, hrests⟩ := hend.resolve_left (not_not.mpr hnext)
    exact ⟨hrests.internal, hnone, horder.last ▸ hrests.eventless⟩
  · obtain ⟨p, p', hp, hphase, hearlier, rfl, htaken⟩ := hcomes.taken hsplit
    rcases hphase.takes with ⟨-, -, new, hnew⟩ | ⟨hquiet, -, hoffers, -⟩
    · rw [hnew.handled, hearlier] at htaken
      simp at htaken
    · exact ⟨p, p', hp, hphase, hearlier, htaken, hoffers,
        hearlier ▸ hp.inOrder.last ▸ hquiet⟩
  · -- both are ends of the one way
    rcases ReflTransGen.total_of_right_unique phase_unique hp hway with hgoes | hgoes
    · rcases hgoes.cases_head with heq | ⟨q, hphase, -⟩
      · exact heq
      · exact absurd hphase (Ended.no_phase (.inl hstatus) q)
    · rcases hgoes.cases_head with heq | ⟨q, hphase, -⟩
      · exact heq.symm
      · exact absurd hphase (hend.no_phase q)

/-- A machine that raises two events for one, and a third one for the first of these. -/
def relayConfig : MachineConfig where
  root := .node { id := some "relay", initial := some "desk" }
    (some [
      ("desk", .node {
        on := some [("GO", some [{ actions := [.named "ONE", .named "TWO"] }]),
          ("ONE", some [{ actions := [.named "THREE"] }])] } none)])

/-- Every action of the machine raises the event of its name. -/
def relay : Machine where
  definition := (Definition.build relayConfig).toOption.getD default
  implementations := { (default : Implementations Logic) with
    actions := fun name => some (.raise (.fixed (.named name)) none none) }
  spawn := default

/-- The machine at its desk. -/
def relayDesk : MachineSnapshot := (relay.initialState default .null).2.toOption.getD default

/-- The third event is raised while the second one waits, and is taken after it. -/
theorem relay_in_order : ∃ fin : Progress, relay.Comes default relayDesk (.named "GO") fin ∧
    fin.work.internal = [] ∧ fin.work.handled.map Event.name = ["GO", "ONE", "TWO", "THREE"] ∧
      fin.work.raised.map Event.name = ["ONE", "TWO", "THREE"] := by
  have hreturns : (relay.transition default relayDesk (.named "GO")).2.isOk = true := by
    decide +kernel
  obtain ⟨fin, hcomes, hrun, hnext, -, hend, -⟩ :=
    runs_to_completion (by decide +kernel) (pair_of_isOk hreturns)
  have hwork : fin.work = (relay.macrostep (some (.named "GO")) (.named "GO")).after
      (outset default relayDesk (.named "GO")).work := (after_of_ok hrun).symm
  refine ⟨fin, hcomes, (hend ?_).1, ?_, ?_⟩
  · decide +kernel
  · rw [hwork]
    decide +kernel
  · rw [hwork]
    decide +kernel

end Machine

end Statechart
