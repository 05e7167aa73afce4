import Statechart.Proofs.Alternation
import Statechart.Proofs.Draining

/-!
# What a settled machine does with an event

After a macrostep that leaves it active a machine has settled: no transition is enabled without an
event, as seen by guards that observe the event taken last (`Settled.quiet`). The next macrostep sets
out with the new event in its place before that one is taken. Where the guards that matter answer
alike for both, the first microstep is that of the transitions which the new event enables; else a
transition without an event may come before it (`settled_answers`).
-/

namespace Statechart

/-- The event taken last, or else the one that the macrostep set out with. -/
def lastTaken (marks : List Mark) (trigger : Event) : Event :=
  (marks.filterMap Mark.handled?).getLastD trigger

namespace Definition

variable {L : Type} {d : Definition L} {s : Situation} {event event' : Event}
  {candidates : Nat → List Nat}

theorem firstEnabled_congr : ∀ {ts : List Nat}, (∀ t ∈ ts,
    d.passes s event (d.transition t).guard = d.passes s event' (d.transition t).guard) →
      d.firstEnabled s event ts = d.firstEnabled s event' ts
  | [], _ => rfl
  | t :: rest, h => by
      rw [firstEnabled, firstEnabled, h t List.mem_cons_self,
        firstEnabled_congr fun t' ht' => h t' (List.mem_cons_of_mem _ ht')]

theorem pickAlong_congr (h : ∀ i, ∀ t ∈ candidates i,
    d.passes s event (d.transition t).guard = d.passes s event' (d.transition t).guard) :
    ∀ {path : List Nat},
      d.pickAlong s event candidates path = d.pickAlong s event' candidates path
  | [] => rfl
  | node :: rest => by
      rw [pickAlong, pickAlong, firstEnabled_congr (h node), pickAlong_congr h]

/-- Selection depends on the event only by what the guards of candidates make of it. -/
theorem selectFrom_congr (h : ∀ i, ∀ t ∈ candidates i,
    d.passes s event (d.transition t).guard = d.passes s event' (d.transition t).guard) :
    d.selectFrom s event candidates = d.selectFrom s event' candidates := by
  have hpicks : ∀ {leaves picked : List Nat},
      d.picks s event candidates picked leaves = d.picks s event' candidates picked leaves := by
    intro leaves
    induction leaves with
    | nil => exact fun {_} => rfl
    | cons leaf rest ih =>
        intro picked
        rw [picks, picks, pick, pick, pickAlong_congr h]
        simp only [ih]
  rw [selectFrom, selectFrom, hpicks]

end Definition

namespace Machine

open StepM

variable {m : Machine} {scope scope' : Scope} {s next : MachineSnapshot} {w w' : Work}
  {event last : Event} {external : Option Event} {α β : Type}

/-! ## Settled machines -/

variable (m) in
/-- The active snapshots that macrosteps return, each with the event that guards of transitions
without an event have seen last. -/
inductive Settled : MachineSnapshot → Event → Prop
  | initial {scope scope' : Scope} {input : Json} {s : MachineSnapshot}
      (hreturns : m.initialState scope input = (scope', .ok s)) (hactive : s.status = .active) :
      Settled s (lastTaken (marksOf (m.initialRun scope input)) (initEvent input))
  | event {scope scope' : Scope} {s next : MachineSnapshot} {event : Event}
      (hreturns : m.transition scope s event = (scope', .ok next))
      (hactive : next.status = .active) :
      Settled next (lastTaken (m.transitionMarks scope s event) event)

/-- The event that guards see is the one taken last, from phase to phase. -/
theorem Phase.last_eq {p p' : Progress} (h : m.Phase p p')
    (hp : p.last = p.work.handled.getLastD event) : p'.last = p'.work.handled.getLastD event := by
  rcases h.takes with ⟨-, hlast, new, hnew⟩ | ⟨-, hhandled, -⟩
  · rw [hlast, hp, hnew.handled]
  · rw [hhandled, List.getLastD_concat]

/-- A macrostep that leaves its machine active leaves it settled. -/
theorem settle_quiet {fuel : Nat} {pending : Option Event}
    (h : m.settle fuel pending event w = .ok () w') (hnone : w.handled = [])
    (hactive : w'.snapshot.status = .active) :
    m.definition.selectEventless (m.situation w'.snapshot) (w'.handled.getLastD event) =
      .ok [] := by
  obtain ⟨fin, hway, hend, rfl⟩ := settle_ends h
  have hlast : fin.last = fin.work.handled.getLastD event := by
    clear hend hactive h
    induction hway with
    | refl => rw [hnone]; rfl
    | tail _ hphase ih => exact hphase.last_eq ih
  exact hlast ▸ (hend.resolve_left (not_not.mpr hactive)).2.eventless

/-- A settled machine has nothing to do without a new event. -/
theorem Settled.quiet (h : m.Settled s last) :
    m.definition.selectEventless (m.situation s) last = .ok [] := by
  cases h with
  | @initial scope _ input _ hreturns hactive =>
      obtain ⟨w, hrun, rfl⟩ := outcome_ok hreturns
      rw [hrun]
      obtain ⟨_, w₁, henter, hsettle⟩ := bind_eq_ok hrun
      obtain ⟨new, hnew⟩ := raises_of_records records_enter henter
      exact settle_quiet hsettle hnew.handled hactive
  | @event scope _ s _ event hreturns hactive =>
      by_cases hfrom : s.status = .active
      · rw [transition, if_pos hfrom] at hreturns
        obtain ⟨w, hrun, rfl⟩ := outcome_ok hreturns
        rw [transitionMarks, if_pos hfrom, hrun]
        exact settle_quiet hrun rfl hactive
      · rw [transition, if_neg hfrom] at hreturns
        cases hreturns
        exact absurd hactive hfrom

/-- An active machine can act on an event if one of the transitions selected for it is not
forbidden. -/
theorem can_eq_true (h : m.can s event = .ok true) : s.status = .active ∧
    ∃ ts, m.definition.select (m.situation s) event = .ok ts ∧ m.definition.permitted ts ≠ [] := by
  unfold can at h
  split at h
  · rename_i hactive
    split at h
    · rename_i ts hselect
      obtain ⟨t, ht, hfree⟩ := List.any_eq_true.mp (Except.ok.inj h)
      refine ⟨hactive, ts, hselect, List.ne_nil_of_mem (a := m.definition.transition t) ?_⟩
      exact List.mem_filter.mpr ⟨List.mem_map_of_mem ht, hfree⟩
    · cases h
  · cases h

/-! ## Beginnings of macrosteps -/

theorem Proceeds.journal (h : m.Proceeds external w w') : w.journal <:+ w'.journal := by
  cases h with
  | acted h =>
      cases h with
      | marked k => exact List.suffix_cons k _
      | raised event => exact List.suffix_cons (Mark.raised event) _
      | _ => exact List.suffix_rfl
  | _ => exact List.suffix_rfl

/-- What has happened stays told. -/
theorem marks_prefix {x : StepM α} (h : Runs (m.Proceeds external) x) (w : Work) :
    w.marks <+: (x.after w).marks := by
  have hrun := h w
  generalize x.after w = w' at hrun
  induction hrun with
  | refl => exact List.prefix_rfl
  | tail _ hstep ih => exact ih.trans (List.reverse_prefix.mpr hstep.journal)

theorem marks_prefix_bind (external : Option Event) {x : StepM α} {f : α → StepM β}
    (h : ∀ a, Runs (m.Proceeds external) (f a)) (w : Work) :
    (x.after w).marks <+: ((x >>= f).after w).marks := by
  cases hx : x w with
  | ok a w' =>
      rw [after_of_ok hx, after_congr (bind_of_ok hx)]
      exact marks_prefix (h a) w'
  | error e w' =>
      have hall : (x >>= f) w = .error e w' := by
        show EStateM.bind x f w = _
        rw [EStateM.bind, hx]
      have hsame : (x >>= f).after w = x.after w := by rw [after, after, hx, hall]
      exact hsame ▸ List.prefix_rfl

theorem marksOf_eq (x : StepM Unit) (w : Work) : marksOf (x w) = (x.after w).marks := by
  rw [after]
  cases x w <;> rfl

/-- What follows a mark is told after it. -/
theorem mark_begins (external : Option Event) {k : Mark} {f : Unit → StepM α}
    (h : Runs (m.Proceeds external) (f ())) (w : Work) :
    w.marks ++ [k] <+: ((mark k >>= f).after w).marks := by
  have hmark : ((mark k).after w).marks = w.marks ++ [k] := List.reverse_cons
  exact hmark ▸ marks_prefix_bind external (fun _ => h) w

/-- A microstep tells of its transitions first. -/
theorem microstep_begins (event : Event) {ts : List Nat}
    (hsome : m.definition.permitted ts ≠ []) (w : Work) :
    w.marks ++ [.microstep ((m.definition.permitted ts).map Transition.index)] <+:
      ((m.microstep ts event).after w).marks := by
  rcases microstep_marks m none ts event with ⟨hnil, -⟩ | ⟨-, rest, hrest, hmarks⟩
  · exact absurd hnil hsome
  · rw [hmarks]
    exact mark_begins none hrest w

/-- To take an event is told first, and then what is selected for it. -/
theorem handle_begins {ts : List Nat}
    (hselect : m.definition.select (m.situation w.snapshot) event = .ok ts)
    (hsome : m.definition.permitted ts ≠ []) :
    w.marks ++ [.handled event ts, .microstep ((m.definition.permitted ts).map Transition.index)]
      <+: ((m.handle event).after w).marks := by
  have hhandle := handle_of_select hselect fun hnil => hsome (by rw [hnil]; rfl)
  have hbegins := microstep_begins event hsome
    { w with journal := .handled event ts :: w.journal }
  rw [after_congr hhandle]
  simpa [Work.marks] using hbegins

/-- A macrostep of a machine with nothing left to do begins with the external event. -/
theorem settle_begins {ts : List Nat} (hrests : m.Rests event w)
    (hselect : m.definition.select (m.situation w.snapshot) event = .ok ts)
    (hsome : m.definition.permitted ts ≠ []) (fuel : Nat) :
    w.marks ++ [.handled event ts, .microstep ((m.definition.permitted ts).map Transition.index)]
      <+: ((m.settle (fuel + 1) (some event) event).after w).marks := by
  obtain ⟨children, hrelease, -⟩ := releaseCompleted_sublist event w
  rw [after_congr (settle_of_rests hrests fuel), after_congr (bind_of_ok hrelease)]
  have hhandle := handle_begins
    (w := { w with snapshot := { w.snapshot with children } }) hselect hsome
  exact hhandle.trans
    (marks_prefix_bind none (fun _ => proceeds_settle (by simp)) _)

/-- With a transition that needs no event a macrostep begins with that one. -/
theorem settle_begins_eventless {quick : List Nat} {pending : Option Event}
    (hactive : w.snapshot.status = .active)
    (hselect : m.definition.selectEventless (m.situation w.snapshot) last = .ok quick)
    (hsome : quick ≠ []) (fuel : Nat) :
    w.marks ++ [.eventless last quick] <+:
      ((m.settle (fuel + 1) pending last).after w).marks := by
  have hselected : m.selectEventless last w = .ok quick w := by
    rw [selectEventless, bind_of_ok (get_ok w), hselect]
    rfl
  have hsettle : m.settle (fuel + 1) pending last w =
      (do mark (.eventless last quick); m.microstep quick last; m.settle fuel pending last) w := by
    conv_lhs => unfold settle
    rw [bind_of_ok (get_ok w), if_neg (not_not.mpr hactive), bind_of_ok hselected,
      if_pos (by simpa using hsome)]
  rw [after_congr hsettle]
  exact mark_begins pending
    (.bind proceeds_microstep fun _ => proceeds_settle fun _ => id) w

/-! ## Answers -/

/-- A settled machine that can act on an event begins with the transitions which the event enables,
if none is enabled without an event once guards observe the new one. If one is, it comes first. Where
guards of transitions without an event answer alike for the new event and the one taken last, none
is. -/
theorem settled_answers (h : m.Settled s last) :
    m.definition.selectEventless (m.situation s) last = .ok [] ∧
    ∀ (scope : Scope) (event : Event), m.can s event = .ok true →
      ∃ ts, m.definition.select (m.situation s) event = .ok ts ∧ m.definition.permitted ts ≠ [] ∧
      (m.definition.selectEventless (m.situation s) event = .ok [] →
        [.handled event ts, .microstep ((m.definition.permitted ts).map Transition.index)] <+:
          m.transitionMarks scope s event) ∧
      (∀ quick, quick ≠ [] → m.definition.selectEventless (m.situation s) event = .ok quick →
        [.eventless event quick] <+: m.transitionMarks scope s event) ∧
      ((∀ i, ∀ t ∈ m.definition.eventless i,
          m.definition.passes (m.situation s) event (m.definition.transition t).guard =
            m.definition.passes (m.situation s) last (m.definition.transition t).guard) →
        m.definition.selectEventless (m.situation s) event = .ok []) := by
  refine ⟨h.quiet, fun scope event hcan => ?_⟩
  obtain ⟨hactive, ts, hselect, hsome⟩ := can_eq_true hcan
  obtain ⟨fuel, hfuel⟩ : ∃ fuel, patience = fuel + 1 := ⟨patience - 1, rfl⟩
  let w := begin { scope with system := scope.system.pinning (s.children.map Prod.snd) } s
  have hmarks : m.transitionMarks scope s event =
      ((m.settle (fuel + 1) (some event) event).after w).marks := by
    rw [transitionMarks, if_pos hactive, transitionRun, runStep, macrostep, hfuel, marksOf_eq]
  refine ⟨ts, hselect, hsome, fun hquiet => ?_, fun quick hne hquick => ?_, fun hguards => ?_⟩
  · rw [hmarks]
    exact settle_begins (w := w) ⟨hactive, hquiet, rfl⟩ hselect hsome fuel
  · rw [hmarks]
    exact settle_begins_eventless (w := w) hactive hquick hne fuel
  · rw [Definition.selectEventless, Definition.selectFrom_congr hguards]
    exact h.quiet

/-- A machine that leaves its first state on an event, or else without one when it sees a flag. -/
def hastyConfig : MachineConfig where
  root := .node { id := some "hasty", initial := some "a" }
    (some [
      ("a", .node {
        always := some [{ target := ["b"], guard := some (.expr "event.go") }]
        on := some [("E", some [.toTarget "c"])] } none),
      ("b", .node {} none),
      ("c", .node {} none)])

def hasty : Machine where
  definition := (Definition.build hastyConfig).toOption.getD default
  implementations := default
  spawn := default

/-- The machine in its first state. -/
def hastyStart : MachineSnapshot := (hasty.initialState default .null).2.toOption.getD default

theorem settled_hastyStart : hasty.Settled hastyStart
    (lastTaken (marksOf (hasty.initialRun default .null)) (initEvent .null)) := by
  have hreturns : (hasty.initialState default .null).2.isOk = true := by decide +kernel
  exact .initial (pair_of_isOk hreturns) (by decide +kernel)

/-- Without the flag the event is answered. -/
theorem hasty_answers : ∃ ts, hasty.definition.select (hasty.situation hastyStart) (.named "E") =
      .ok ts ∧
    [.handled (.named "E") ts, .microstep ((hasty.definition.permitted ts).map Transition.index)]
      <+: hasty.transitionMarks default hastyStart (.named "E") := by
  obtain ⟨ts, hselect, -, hanswers, -⟩ :=
    (settled_answers settled_hastyStart).2 default (.named "E") (by decide +kernel)
  exact ⟨ts, hselect, hanswers (by decide +kernel)⟩

/-- The transitions of a microstep that begins. -/
def begun? : Mark → Option (List Nat)
  | .microstep ts => some ts
  | _ => none

/-- With the flag the machine goes where the event does not lead. -/
theorem hasty_jumps : ¬∀ (m : Machine) (s : MachineSnapshot) (last : Event), m.Settled s last →
    ∀ (scope : Scope) (event : Event) (ts : List Nat), m.can s event = .ok true →
      m.definition.select (m.situation s) event = .ok ts →
        (m.transitionMarks scope s event).findSome? begun? =
          some ((m.definition.permitted ts).map Transition.index) := by
  intro hall
  let flagged : Event := { name := "E", data := .obj [("go", .bool true)] }
  have hselect : hasty.definition.select (hasty.situation hastyStart) flagged = .ok [0] := by
    decide +kernel
  have hfirst := hall hasty hastyStart _ settled_hastyStart default flagged [0]
    (by decide +kernel) hselect
  have hjumps : (hasty.transitionMarks default hastyStart flagged).findSome? begun? =
      some [1] := by decide +kernel
  rw [hjumps] at hfirst
  exact absurd hfirst (by decide +kernel)

end Machine

end Statechart
