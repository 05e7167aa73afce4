import Statechart.Actor.Spawn
import Statechart.Proofs.Answering
import Statechart.Proofs.Finality
import Statechart.Proofs.Recall

/-!
# Steps that count as no change

A step counts as a change if it leaves another configuration or another context or has recorded
actions. An action that changes something is recorded (`Work.Discloses`), so where none is recorded
all that is left to change a snapshot is what macrosteps do of their own accord. What that is stands
in `Machine.Unrecorded`: the child whose end is reported is let go, history states remember what is
left even if it is entered again at once, and an error that nothing is selected for fails the
machine. `microstep_progresses` and `handle_progresses` show it of the parts of a macrostep,
`progresses_of_phases` of the whole.
-/

namespace Statechart

open Relation (ReflTransGen)

/-! ## Recorded actions -/

/-- What has not grown on the whole way has grown on neither part of it. -/
theorem eq_of_prefixes {α : Type} {xs ys zs : List α} (h : xs <+: ys) (h' : ys <+: zs)
    (hsame : zs = xs) : ys = xs ∧ zs = ys := by
  subst hsame
  have heq : ys = zs := h'.eq_of_length_le h.length_le
  exact ⟨heq, heq.symm⟩

namespace Work

variable {w w₁ w' : Work}

/-- Actions are recorded, and if there are none the snapshot keeps what it holds. -/
structure Accrues (w w' : Work) : Prop where
  actions : w.snapshot.actions <+: w'.snapshot.actions
  holdings : w'.snapshot.actions = w.snapshot.actions → w'.snapshot.holdings = w.snapshot.holdings

theorem Accrues.refl (w : Work) : w.Accrues w := ⟨List.prefix_rfl, fun _ => rfl⟩

theorem Accrues.trans (h : w.Accrues w₁) (h' : w₁.Accrues w') : w.Accrues w' where
  actions := h.actions.trans h'.actions
  holdings hsame := by
    obtain ⟨hfirst, hsecond⟩ := eq_of_prefixes h.actions h'.actions hsame
    exact (h'.holdings hsecond).trans (h.holdings hfirst)

theorem Discloses.accrues (h : w.Discloses w') : w.Accrues w' := by
  cases h with
  | aside hactions hholdings =>
      exact ⟨hactions ▸ List.prefix_rfl, fun _ => hholdings⟩
  | told a hactions =>
      refine ⟨⟨[a], hactions.symm⟩, ?_⟩
      intro hsame
      rw [hactions] at hsame
      simp at hsame

end Work

namespace Machine

open StepM

variable {m : Machine} {w w₁ w' : Work} {event e : Event} {s s₁ s' : MachineSnapshot}
  {marks marks' : List Mark}

theorem discloses_execute {actions : List (Action Logic)} :
    Runs Work.Discloses (m.execute actions event) :=
  (performs_execute m.confines_all fun _ _ => trivial).mono fun _ _ => Performs.discloses

/-- Moves, marks and the end of the machine leave alone what a snapshot holds. -/
theorem microstep_accrues {ts : List Nat} (h : m.microstep ts event w = .ok () w') :
    w.Accrues w' := by
  have hruns : Runs Work.Discloses (m.microstep ts event) :=
    moving_microstep discloses_execute (fun _ _ _ => .aside rfl rfl) (fun _ _ => .aside rfl rfl)
      (fun _ _ => .aside rfl rfl) (fun _ _ => .aside rfl rfl) fun _ _ => .aside rfl rfl
  have hrun := hruns w
  rw [after_of_ok h] at hrun
  clear h
  induction hrun with
  | refl => exact .refl w
  | tail _ hstep ih => exact ih.trans hstep.accrues

/-! ## Steps without actions -/

/-- How it goes on with an active machine. -/
inductive Fate (m : Machine) (marks : List Mark) (s s' : MachineSnapshot) : Prop
  | goesOn (hstatus : s'.status = .active) (houtput : s'.output = s.output)
      (herror : s'.error = s.error)
  /-- The last event that was taken is an error, for which nothing was selected. -/
  | fails (e : Event) (herror : e.isError = true) (hlast : marks.getLast? = some (.handled e []))
      (hstatus : s'.status = .error) (houtput : s'.output = s.output)
      (hdata : s'.error = some e.data)
  | ends (hroot : m.definition.isInFinalState s'.config Definition.rootIndex = true)
      (hstatus : s'.status = .done) (houtput : s'.output = m.finalOutput s'.config)
      (herror : s'.error = s.error)

/-- What a step for an event can change without recording an action, besides the configuration.
`marks` tells what has happened. -/
structure Unrecorded (m : Machine) (event : Event) (marks : List Mark) (s s' : MachineSnapshot) :
    Prop where
  context : s'.context = s.context
  /-- A child is lost only to an event of its own that reports its end. -/
  children : s'.children = s.children ∨ ∃ id child, event.completedChild? = some id ∧
    s.child? id = some child ∧ event.origin = some child.text ∧
      s'.children = SortedMap.erase id s.children
  /-- What a history state remembers changes only if its parent was left. -/
  history : ∀ h, SortedMap.find? h s'.history = SortedMap.find? h s.history ∨
    ∃ state, .exited state ∈ marks ∧ m.definition.IsHistoryOf h state
  still : (∀ state, .exited state ∈ marks → ∀ h, ¬ m.definition.IsHistoryOf h state) →
    s'.history = s.history
  fate : m.Fate marks s s'

theorem Unrecorded.refl (hactive : s.status = .active) : m.Unrecorded event marks s s where
  context := rfl
  children := .inl rfl
  history _ := .inl rfl
  still _ := rfl
  fate := .goesOn hactive rfl rfl

theorem Fate.trans (h : m.Fate marks s s₁) (hactive : s₁.status = .active)
    (h' : m.Fate marks' s₁ s') : m.Fate marks' s s' := by
  obtain ⟨houtput₁, herror₁⟩ : s₁.output = s.output ∧ s₁.error = s.error := by
    cases h with
    | goesOn _ houtput herror => exact ⟨houtput, herror⟩
    | fails _ _ _ hstatus => cases hactive.symm.trans hstatus
    | ends _ hstatus => cases hactive.symm.trans hstatus
  cases h' with
  | goesOn hstatus houtput herror =>
      exact .goesOn hstatus (houtput.trans houtput₁) (herror.trans herror₁)
  | fails e herror hlast hstatus houtput hdata =>
      exact .fails e herror hlast hstatus (houtput.trans houtput₁) hdata
  | ends hroot hstatus houtput herror => exact .ends hroot hstatus houtput (herror.trans herror₁)

theorem Unrecorded.trans (hmarks : marks <+: marks') (h : m.Unrecorded event marks s s₁)
    (hactive : s₁.status = .active) (h' : m.Unrecorded event marks' s₁ s') :
    m.Unrecorded event marks' s s' where
  context := h'.context.trans h.context
  children := by
    rcases h.children with hsame | ⟨id, child, hid, hchild, horigin, hlost⟩
    · have hfind : s₁.child? = s.child? := by
        funext id
        rw [MachineSnapshot.child?, MachineSnapshot.child?, hsame]
      rw [← hsame, ← hfind]
      exact h'.children
    · rcases h'.children with hsame' | ⟨id', child', hid', hchild', -⟩
      · exact .inr ⟨id, child, hid, hchild, horigin, hsame'.trans hlost⟩
      · -- the child is gone already, and there is no other one that the event speaks of
        obtain rfl : id = id' := Option.some.inj (hid.symm.trans hid')
        rw [MachineSnapshot.child?, hlost] at hchild'
        exact absurd rfl (SortedMap.mem_erase.mp (SortedMap.mem_of_find? hchild')).2
  history key := by
    rcases h.history key with hsame | ⟨state, hexit, hkey⟩
    · rw [← hsame]
      exact h'.history key
    · exact .inr ⟨state, hmarks.subset hexit, hkey⟩
  still hno :=
    (h'.still hno).trans (h.still fun state hexit => hno state (hmarks.subset hexit))
  fate := h.fate.trans hactive h'.fate

/-- A part of a macrostep for an event. -/
structure Progresses (m : Machine) (event : Event) (w w' : Work) : Prop where
  marks : w.marks <+: w'.marks
  actions : w.snapshot.actions <+: w'.snapshot.actions
  unrecorded : w'.snapshot.actions = w.snapshot.actions →
    m.Unrecorded event w'.marks w.snapshot w'.snapshot

theorem Progresses.trans (h : m.Progresses event w w₁) (hactive : w₁.snapshot.status = .active)
    (h' : m.Progresses event w₁ w') : m.Progresses event w w' where
  marks := h.marks.trans h'.marks
  actions := h.actions.trans h'.actions
  unrecorded hsame := by
    obtain ⟨hfirst, hsecond⟩ := eq_of_prefixes h.actions h'.actions hsame
    exact (h.unrecorded hfirst).trans h'.marks hactive (h'.unrecorded hsecond)

/-- To put down marks and to take events from the queue leaves the snapshot as it is. -/
theorem Progresses.aside (hactive : w.snapshot.status = .active) (hmarks : w.marks <+: w'.marks)
    (hsnapshot : w'.snapshot = w.snapshot) : m.Progresses event w w' where
  marks := hmarks
  actions := hsnapshot ▸ List.prefix_rfl
  unrecorded _ := by
    rw [hsnapshot]
    exact .refl hactive

theorem Progresses.marked (hactive : w.snapshot.status = .active) (k : Mark) :
    m.Progresses event w { w with journal := k :: w.journal } := by
  refine .aside hactive ?_ rfl
  show w.journal.reverse <+: (k :: w.journal).reverse
  rw [List.reverse_cons]
  exact List.prefix_append _ _

/-- A microstep records the history of the states that it leaves. -/
theorem microstep_leaves {ts : List Nat} (h : m.microstep ts event w = .ok () w')
    (hactive : w.snapshot.status = .active) : ∃ exiting,
      w'.snapshot.history =
        m.definition.recordHistory w.snapshot.config exiting w.snapshot.history ∧
      ∀ state ∈ exiting, .exited state ∈ w'.marks := by
  rcases microstep_parts h with ⟨-, rfl⟩ | ⟨w₁, w₂, hexit, hrun, henter⟩
  · exact ⟨[], rfl, by simp⟩
  · refine ⟨_, (microstep_ok h).1, ?_⟩
    intro state hstate
    obtain ⟨hstatus₁, henacts₁⟩ := exitStates_enacts hexit
    have hstatus₂ := runTransitions_status hrun
    obtain ⟨live, -, henacts⟩ := enter_enacts (hstatus₂.trans (hstatus₁.trans hactive)) henter
    have hexited : .exited state ∈ w₁.moves := by
      rw [henacts₁.moves]
      exact List.mem_append_right _ (List.mem_map_of_mem hstate)
    -- what the transitions and the entries do comes after that
    have hgrows : w₁.marks <+: w₂.marks := by
      have hruns : Runs (m.Proceeds none)
          (m.runTransitions event (m.definition.permitted ts)) := proceeds_of_acts runs_runTransitions
      rw [← after_of_ok hrun]
      exact marks_prefix hruns w₁
    have hmove : .exited state ∈ w'.moves := by
      rw [henacts.moves]
      apply List.mem_append_left
      exact List.mem_filter.mpr ⟨hgrows.subset (List.mem_filter.mp hexited).1, rfl⟩
    exact (List.mem_filter.mp hmove).1

theorem microstep_progresses {ts : List Nat} (hactive : w.snapshot.status = .active)
    (h : m.microstep ts e w = .ok () w') : m.Progresses event w w' where
  marks := by
    have hruns : Runs (m.Proceeds none) (m.microstep ts e) := proceeds_microstep
    rw [← after_of_ok h]
    exact marks_prefix hruns w
  actions := (microstep_accrues h).actions
  unrecorded hsame := by
    obtain ⟨hcontext, hheld⟩ := Prod.mk.inj ((microstep_accrues h).holdings hsame)
    obtain ⟨hchildren, herror⟩ := Prod.mk.inj hheld
    obtain ⟨exiting, hhistory, hexited⟩ := microstep_leaves h hactive
    refine ⟨hcontext, .inl hchildren, ?_, ?_, ?_⟩
    · intro key
      by_cases hkey : ∃ state ∈ exiting, m.definition.IsHistoryOf key state
      · obtain ⟨state, hstate, hkey⟩ := hkey
        exact .inr ⟨state, hexited state hstate, hkey⟩
      · left
        rw [hhistory]
        apply Definition.find?_recordHistory_of_stays
        intro state hstate hkey'
        exact hkey ⟨state, hstate, hkey'⟩
    · intro hno
      rw [hhistory]
      apply Definition.recordHistory_eq_self
      intro state hstate
      exact hno state (hexited state hstate)
    · -- the root alone decides about status and output
      rcases microstep_concludes hactive h with rfl | hends
      · exact .goesOn hactive rfl rfl
      · cases hends with
        | goesOn hroot hstatus houtput => exact .goesOn hstatus houtput herror
        | ends hroot hstatus houtput => exact .ends hroot hstatus houtput herror

theorem handle_progresses (hactive : w.snapshot.status = .active)
    (h : m.handle e w = .ok () w') : m.Progresses event w w' := by
  have hmark : ∀ k : Mark, m.Progresses event w { w with journal := k :: w.journal } :=
    .marked hactive
  obtain ⟨ts, -, ⟨-, herror, rfl⟩ | ⟨-, -, rfl⟩ | ⟨-, hstep⟩⟩ := handle_ok h
  · -- nothing follows on the mark of an error that fails the machine
    refine ⟨(hmark _).marks, List.prefix_rfl, ?_⟩
    intro _
    refine ⟨rfl, .inl rfl, fun _ => .inl rfl, fun _ => rfl, .fails e herror ?_ rfl rfl rfl⟩
    show (Mark.handled e [] :: w.journal).reverse.getLast? = some (.handled e [])
    rw [List.reverse_cons, List.getLast?_concat]
  · exact hmark _
  · exact (hmark (.handled e ts)).trans hactive
      (microstep_progresses (w := { w with journal := .handled e ts :: w.journal }) hactive hstep)

/-- To take an event lets go the child that it reports the end of. -/
theorem releaseCompleted_progresses (hactive : w.snapshot.status = .active)
    (h : releaseCompleted event w = .ok () w') :
    m.Progresses event w w' ∧ w'.snapshot.status = .active := by
  have hsame : ∀ {w' : Work}, w' = w →
      m.Progresses event w w' ∧ w'.snapshot.status = .active := by
    rintro w' rfl
    exact ⟨.aside hactive List.prefix_rfl rfl, hactive⟩
  cases h
  cases hid : event.completedChild? with
  | none => exact hsame rfl
  | some id =>
      cases hchild : w.snapshot.child? id with
      | none =>
          refine hsame ?_
          simp only [hchild]
      | some child =>
          by_cases horigin : event.origin = some child.text
          · simp only [hchild, if_pos horigin]
            refine ⟨⟨List.prefix_rfl, List.prefix_rfl, ?_⟩, hactive⟩
            intro _
            exact ⟨rfl, .inr ⟨id, child, hid, hchild, horigin, rfl⟩, fun _ => .inl rfl,
              fun _ => rfl, .goesOn hactive rfl rfl⟩
          · refine hsame ?_
            simp only [hchild, if_neg horigin]

/-! ## Macrosteps without actions -/

theorem Phase.progresses {p p' : Progress} (h : m.Phase p p')
    (hevent : ∀ e, p.pending = some e → e = event) :
    p.work.snapshot.status = .active ∧ m.Progresses event p.work p'.work := by
  cases h with
  | @eventless ts w hactive _ _ hstep =>
      refine ⟨hactive, (Progresses.marked hactive (.eventless p.last ts)).trans hactive ?_⟩
      exact microstep_progresses
        (w := { p.work with journal := .eventless p.last ts :: p.work.journal }) hactive hstep
  | @internal next rest w hactive _ _ hhandle =>
      refine ⟨hactive, ?_⟩
      have htake : m.Progresses event p.work { p.work with internal := rest } :=
        .aside hactive List.prefix_rfl rfl
      exact htake.trans hactive
        (handle_progresses (w := { p.work with internal := rest }) hactive hhandle)
  | external hpending hrests hrelease hhandle =>
      obtain rfl := hevent _ hpending
      obtain ⟨hreleased, hactive⟩ := releaseCompleted_progresses hrests.active hrelease
      exact ⟨hrests.active, hreleased.trans hactive (handle_progresses hactive hhandle)⟩

theorem Phase.pending {p p' : Progress} (h : m.Phase p p')
    (hevent : ∀ e, p.pending = some e → e = event) : ∀ e, p'.pending = some e → e = event := by
  cases h with
  | eventless => exact hevent
  | internal => exact hevent
  | external => simp

/-- By induction on the phases, of which only the last can end the machine. -/
theorem progresses_of_phases {p p' : Progress} (h : ReflTransGen m.Phase p p')
    (hactive : p.work.snapshot.status = .active)
    (hevent : ∀ e, p.pending = some e → e = event) :
    m.Progresses event p.work p'.work ∧ ∀ e, p'.pending = some e → e = event := by
  induction h with
  | refl => exact ⟨.aside hactive List.prefix_rfl rfl, hevent⟩
  | tail _ hphase ih =>
      obtain ⟨hway, hpending⟩ := ih
      obtain ⟨hstill, hnext⟩ := hphase.progresses hpending
      exact ⟨hway.trans hstill hnext, hphase.pending hpending⟩

/-- What it takes for a step to count as no change. -/
theorem hasChanged_eq_false (h : hasChanged s s' = false) :
    s'.config = s.config ∧ s'.actions = [] := by
  simp only [hasChanged, Bool.or_eq_false_iff, bne_eq_false_iff_eq, Bool.not_eq_false',
    List.isEmpty_iff] at h
  exact ⟨h.1.1.symm, h.2⟩

/-- After a step that does not count as a change, configuration and context are the same and no
action has been carried out. What else can be different is what `Unrecorded` says, with the states
that were left among the marks of the step. In a run the output is the same as well, and the machine
is not done. -/
theorem unchanged_keeps {scope scope' : Scope} {next : MachineSnapshot}
    (hactive : s.status = .active) (h : m.transition scope s event = (scope', .ok next))
    (hsame : next.changed = false) :
    ∃ w, m.transitionRun scope s event = .ok () w ∧ next.config = s.config ∧ next.actions = [] ∧
      m.Unrecorded event w.marks s next ∧
      (m.Reaches s → next.status ≠ .done ∧ next.output = s.output) := by
  have hstep := h
  rw [transition, if_pos hactive] at h
  obtain ⟨w, hrun, rfl⟩ := outcome_ok h
  obtain ⟨hconfig, hactions⟩ : w.snapshot.config = s.config ∧ w.snapshot.actions = [] :=
    hasChanged_eq_false hsame
  obtain ⟨fin, hway, -, rfl⟩ := settle_ends hrun
  have hchanges : m.Unrecorded event fin.work.marks s (finish (some s) fin.work.snapshot) := by
    have hpending : ∀ e, some event = some e → e = event := by simp
    obtain ⟨hprogress, -⟩ : m.Progresses event (outset scope s event).work fin.work ∧ _ :=
      progresses_of_phases hway hactive hpending
    -- the step began without a recorded action
    obtain ⟨hcontext, hchildren, hhistory, hstill, hfate⟩ := hprogress.unrecorded hactions
    refine ⟨hcontext, hchildren, hhistory, hstill, ?_⟩
    cases hfate with
    | goesOn hstatus houtput herror => exact .goesOn hstatus houtput herror
    | fails e herror hlast hstatus houtput hdata =>
        exact .fails e herror hlast hstatus houtput hdata
    | ends hroot hstatus houtput herror => exact .ends hroot hstatus houtput herror
  refine ⟨fin.work, hrun, hconfig, hactions, hchanges, ?_⟩
  intro hs
  have hundone : (finish (some s) fin.work.snapshot).status ≠ .done := by
    intro hdone
    have hroot := (hs.next hstep).agrees.done_iff.mp hdone
    have hdone' := hs.agrees.done_iff.mpr (hconfig ▸ hroot)
    cases hactive.symm.trans hdone'
  refine ⟨hundone, ?_⟩
  cases hchanges.fate with
  | goesOn _ houtput => exact houtput
  | fails _ _ _ _ houtput => exact houtput
  | ends _ hstatus => exact absurd hstatus hundone

/-- A porter, who does nothing. -/
def porterJson : Json :=
  .obj [("id", .str "porter"), ("initial", .str "awake"), ("states", .obj [("awake", .obj [])])]

/-- A lodge with a porter. Whoever knocks leaves the room and comes back at once. -/
def lodgeJson : Json :=
  .obj [("id", .str "lodge"), ("initial", .str "room"),
    ("invoke", .obj [("id", .str "p"), ("src", .str "porter")]),
    ("states", .obj
      [("room", .obj [("initial", .str "desk"), ("on", .obj [("KNOCK", .str "hall")]),
          ("states", .obj [("desk", .obj []), ("last", .obj [("type", .str "history")])])]),
        ("hall", .obj [("always", .str "room")])])]

def lodge : Machine where
  definition := (Definition.ofJson lodgeJson).toOption.getD default
  implementations :=
    { (default : Implementations Logic) with
      actors := fun _ =>
        some (.machine ((Definition.ofJson porterJson).toOption.getD default) default) }
  spawn := Statechart.spawn

def lodgeScope : Scope := .detached default "lodge"

/-- The lodge in its first state. -/
def lodgeOpen : MachineSnapshot :=
  (lodge.initialState lodgeScope .null).2.toOption.getD default

def lodgeAfter (event : Event) : MachineSnapshot :=
  (lodge.transition lodgeScope lodgeOpen event).2.toOption.getD default

/-- What the porter sends last, if all is well. -/
def porterDone : Event :=
  { name := "done.actor.p", origin := some "actor-1", kind := .platform }

/-- What is sent for a porter who is lost. -/
def porterLost : Event :=
  { name := "error.platform.p", data := .str "lost", origin := some "actor-1", kind := .platform }

theorem lodge_reaches : lodge.Reaches lodgeOpen := by
  have hfirst : (lodge.initialState lodgeScope .null).2.isOk = true := by decide +kernel
  exact reaches_of_isOk hfirst

theorem lodge_active : lodgeOpen.status = .active := by decide +kernel

/-- The lodge loses its porter and fails, and does not count as changed. -/
theorem lodge_loses_porter : ∃ w, lodge.transitionRun lodgeScope lodgeOpen porterLost = .ok () w ∧
    lodge.Unrecorded porterLost w.marks lodgeOpen (lodgeAfter porterLost) ∧
    (lodgeAfter porterLost).output = lodgeOpen.output ∧
    (lodgeAfter porterLost).children = [] ∧ lodgeOpen.children = [("p", ⟨1⟩)] ∧
    (lodgeAfter porterLost).error = some (.str "lost") := by
  obtain ⟨hok, hsame, hlost, hporter, herror⟩ :
      (lodge.transition lodgeScope lodgeOpen porterLost).2.isOk = true ∧
        (lodgeAfter porterLost).changed = false ∧ (lodgeAfter porterLost).children = [] ∧
        lodgeOpen.children = [("p", ⟨1⟩)] ∧
        (lodgeAfter porterLost).error = some (.str "lost") := by decide +kernel
  have hstep : lodge.transition lodgeScope lodgeOpen porterLost =
      (_, .ok (lodgeAfter porterLost)) := transition_of_isOk hok
  obtain ⟨w, hrun, -, -, hchanges, hreached⟩ := unchanged_keeps lodge_active hstep hsame
  exact ⟨w, hrun, hchanges, (hreached lodge_reaches).2, hlost, hporter, herror⟩

/-- After some event an active machine has a snapshot that does not count as changed. -/
def Unnoticed (m : Machine) (s next : MachineSnapshot) : Prop :=
  m.Reaches s ∧ s.status = .active ∧ next.changed = false ∧ m.Follows s next

theorem lodge_unnoticed {event : Event}
    (hok : (lodge.transition lodgeScope lodgeOpen event).2.isOk = true)
    (hsame : (lodgeAfter event).changed = false) :
    lodge.Unnoticed lodgeOpen (lodgeAfter event) :=
  ⟨lodge_reaches, lodge_active, hsame, _, _, _, transition_of_isOk hok⟩

/-- A snapshot that does not count as changed cannot be ignored: it can hide that a state was left
and entered again, that a child is gone, and that the machine has failed. -/
theorem changes_unnoticed :
    (¬∀ (m : Machine) (s next : MachineSnapshot), m.Unnoticed s next →
      next.status = s.status ∧ next.config = s.config ∧ next.context = s.context ∧
        next.history = s.history ∧ next.children = s.children ∧ next.output = s.output ∧
          next.error = s.error) ∧
    (∃ (m : Machine) (s next : MachineSnapshot), m.Unnoticed s next ∧
      next.history ≠ s.history) ∧
    (∃ (m : Machine) (s next : MachineSnapshot), m.Unnoticed s next ∧
      next.children ≠ s.children) ∧
    ∃ (m : Machine) (s next : MachineSnapshot), m.Unnoticed s next ∧
      next.status = .error ∧ next.error ≠ s.error := by
  obtain ⟨hknock, hsame, hhistory⟩ :
      (lodge.transition lodgeScope lodgeOpen (.named "KNOCK")).2.isOk = true ∧
        (lodgeAfter (.named "KNOCK")).changed = false ∧
        (lodgeAfter (.named "KNOCK")).history ≠ lodgeOpen.history := by decide +kernel
  obtain ⟨hdone, hsame', hchildren⟩ :
      (lodge.transition lodgeScope lodgeOpen porterDone).2.isOk = true ∧
        (lodgeAfter porterDone).changed = false ∧
        (lodgeAfter porterDone).children ≠ lodgeOpen.children := by decide +kernel
  obtain ⟨hlost, hsame'', hfailed, herror⟩ :
      (lodge.transition lodgeScope lodgeOpen porterLost).2.isOk = true ∧
        (lodgeAfter porterLost).changed = false ∧ (lodgeAfter porterLost).status = .error ∧
        (lodgeAfter porterLost).error ≠ lodgeOpen.error := by decide +kernel
  refine ⟨?_, ⟨_, _, _, lodge_unnoticed hknock hsame, hhistory⟩,
    ⟨_, _, _, lodge_unnoticed hdone hsame', hchildren⟩,
    ⟨_, _, _, lodge_unnoticed hlost hsame'', hfailed, herror⟩⟩
  intro hall
  obtain ⟨-, -, -, hkept, -⟩ := hall _ _ _ (lodge_unnoticed hknock hsame)
  exact hhistory hkept

end Machine

end Statechart
