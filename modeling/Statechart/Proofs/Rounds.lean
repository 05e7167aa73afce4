import Statechart.Proofs.Enactment

/-!
# Rounds

What a step does to states comes in rounds: the first entry, each microstep, and the stop. A round
carries out the exit actions of the states it leaves, the actions of its transitions, and the entry
actions of the states it enters, in this order; at the end of the machine the exit actions of all
active states follow. `microstep_turns` says so of every microstep, `Chronicle` of all that a machine has
done so far, and `Machine.Continues` that the actions told of have been carried out.
-/

namespace Statechart

/-! ## Rounds -/

/-- What is done to states at a time. -/
structure Round where
  /-- The transitions taken, if it is a microstep. -/
  transitions : Option (List Nat)
  exits : List Nat
  entries : List Nat
  /-- The states whose exit actions are carried out because the machine comes to its end. -/
  last : List Nat

namespace Round

/-- What a round does, in order. -/
def marks (r : Round) : List Mark :=
  (r.transitions.map Mark.microstep).toList ++ r.exits.map .exited ++
    (r.transitions.getD []).map .taken ++ r.entries.map .entered ++ r.last.map .exited

/-- A round leads from one configuration to the next. Where the machine comes to its end, it carries
out the exit actions of all states that are active then. -/
structure Leads (r : Round) (config next : Configuration) (live : Bool) : Prop where
  exits_mem : ∀ i ∈ r.exits, i ∈ config
  exits_sorted : r.exits.Pairwise (· > ·)
  entries_fresh : ∀ i ∈ r.entries, i ∈ config → i ∈ r.exits
  entries_sorted : r.entries.Pairwise (· < ·)
  mem_next : ∀ i, i ∈ next ↔ (i ∈ config ∧ i ∉ r.exits) ∨ i ∈ r.entries
  last_eq : r.last = if live then [] else next.toList.reverse

end Round

/-- The rounds of a machine up to a configuration, from no active state on. None follows its end. -/
inductive Itinerary : List Round → Configuration → Bool → Prop
  | nil : Itinerary [] .empty true
  | snoc {rounds : List Round} {r : Round} {config next : Configuration} {live : Bool} :
      Itinerary rounds config true → r.Leads config next live → Itinerary (rounds ++ [r]) next live

/-- What has happened are the rounds up to a configuration, and the status tells whether they have
come to their end. -/
def Chronicle (moves : List Mark) (config : Configuration) (status : SnapshotStatus) : Prop :=
  ∃ rounds live, Itinerary rounds config live ∧ moves = rounds.flatMap Round.marks ∧
    (status = .active ∨ status = .error → live = true) ∧ (status = .done → live = false)

/-- A machine that fails leaves everything as it is. -/
theorem Chronicle.error {moves : List Mark} {config : Configuration}
    (h : Chronicle moves config .active) : Chronicle moves config .error := by
  obtain ⟨rounds, live, hcourse, hmoves, hlive, -⟩ := h
  exact ⟨rounds, live, hcourse, hmoves, fun _ => hlive (.inl rfl), by simp⟩

theorem Chronicle.turn {moves : List Mark} {r : Round} {config next : Configuration} {live : Bool}
    (h : Chronicle moves config .active) (hr : r.Leads config next live) :
    Chronicle (moves ++ r.marks) next (if live then .active else .done) := by
  obtain ⟨rounds, live', hcourse, rfl, hlive, -⟩ := h
  obtain rfl : live' = true := hlive (.inl rfl)
  refine ⟨rounds ++ [r], live, hcourse.snoc hr, ?_, ?_, ?_⟩
  · simp
  · cases live <;> simp
  · cases live <;> simp

namespace Machine

open StepM

variable {m : Machine} {w w' : Work} {event : Event}

/-! ## Parts of a round -/

theorem completeAround_ok {raised raised' : List Nat} {final : Nat}
    (h : m.completeAround raised final w = .ok raised' w') :
    w'.snapshot.status = w.snapshot.status ∧ w.Pauses w' := by
  have hruns : Runs (fun w w' => w'.snapshot = w.snapshot ∧ w'.scope = w.scope ∧
      w'.moves = w.moves) (m.completeAround raised final) := by
    refine completing_completeAround (fun w state => ⟨rfl, rfl, ?_⟩) fun w event => ⟨rfl, rfl, ?_⟩
    · exact Work.moves_aside rfl rfl
    · exact Work.moves_aside rfl rfl
  have hsnapshot := hruns.keeps (fun _ _ h => h.1) h
  exact ⟨congrArg MachineSnapshot.status hsnapshot, hruns.keeps (fun _ _ h => h.2.1) h,
    congrArg MachineSnapshot.context hsnapshot, congrArg MachineSnapshot.actions hsnapshot,
    hruns.keeps (fun _ _ h => h.2.2) h⟩

theorem runExits_enacts : ∀ {states : List Nat} {w : Work},
    m.runExits event states w = .ok () w' → w'.snapshot.config = w.snapshot.config ∧
      w'.snapshot.status = w.snapshot.status ∧ m.Enacts (states.map .exited) w w'
  | [], w, h => by
      cases h
      exact ⟨rfl, rfl, .nil⟩
  | state :: rest, w, h => by
      obtain ⟨w₁, hexit, hrest⟩ := runExits_cons h
      obtain ⟨hconfig, hstatus⟩ := execute_ok hexit
      obtain ⟨hconfig', hstatus', henacts⟩ := runExits_enacts hrest
      refine ⟨hconfig'.trans hconfig, hstatus'.trans hstatus, ?_⟩
      exact (enacts_execute (k := .exited state) rfl hexit).trans henacts

theorem exitStates_enacts : ∀ {states : List Nat} {w : Work},
    m.exitStates event states w = .ok () w' → w'.snapshot.status = w.snapshot.status ∧
      m.Enacts (states.map .exited) w w'
  | [], w, h => by
      cases h
      exact ⟨rfl, .nil⟩
  | state :: rest, w, h => by
      obtain ⟨_, w₁, hstate, hrest⟩ := bind_eq_ok h
      obtain ⟨w₂, hexit, rfl⟩ := exitState_parts hstate
      obtain ⟨-, hstatus⟩ := execute_ok hexit
      obtain ⟨hstatus', henacts⟩ := exitStates_enacts hrest
      refine ⟨hstatus'.trans hstatus, ?_⟩
      -- the state is taken out of the configuration after its mark is put down
      refine (enacts_execute (k := .exited state) rfl hexit).trans (.pause ?_ henacts)
      exact ⟨rfl, rfl, rfl, rfl⟩

theorem runTransitions_status {ts : List (Transition Logic)}
    (h : m.runTransitions event ts w = .ok () w') : w'.snapshot.status = w.snapshot.status := by
  have hexecute : ∀ {actions : List (Action Logic)} {event : Event},
      Runs (fun w w' => w'.snapshot.status = w.snapshot.status) (m.execute actions event) :=
    (performs_execute m.confines_all fun _ _ => trivial).mono fun _ _ h => h.status
  exact (moving_runTransitions hexecute fun _ _ _ => rfl).keeps (fun _ _ h => h) h

/-- The mark of a transition tells of its actions if it is in its place. -/
theorem runTransitions_enacts : ∀ {ts : List (Transition Logic)} {w : Work},
    (∀ t ∈ ts, m.definition.transition t.index = t) → m.runTransitions event ts w = .ok () w' →
      m.Enacts ((ts.map Transition.index).map .taken) w w'
  | [], w, _, h => by
      cases h
      exact .nil
  | t :: rest, w, hplaced, h => by
      obtain ⟨w₁, hact, hrest⟩ := runTransitions_cons h
      obtain ⟨ht, hplaced⟩ := List.forall_mem_cons.mp hplaced
      have hactions : (Mark.taken t.index).actions m.definition = t.actions :=
        congrArg Transition.actions ht
      rw [← hactions] at hact
      exact (enacts_execute rfl hact).trans (runTransitions_enacts hplaced hrest)

theorem enterStates_enacts : ∀ {states raised : List Nat} {w : Work},
    m.enterStates event raised states w = .ok () w' →
      w'.snapshot.status = w.snapshot.status ∧ m.Enacts (states.map .entered) w w'
  | [], raised, w, h => by
      cases h
      exact ⟨rfl, .nil⟩
  | state :: rest, raised, w, h => by
      obtain ⟨w₁, raised', w₂, hentry, haround, hrest⟩ := enterStates_cons h
      obtain ⟨-, hstatus⟩ := execute_ok hentry
      -- to complete what is around the state is to carry out nothing
      obtain ⟨hstatus₂, hpause⟩ : w₂.snapshot.status = w₁.snapshot.status ∧
          Work.Pauses { w₁ with journal := .entered state :: w₁.journal } w₂ := by
        rcases haround with ⟨-, haround⟩ | ⟨-, -, rfl⟩
        · exact completeAround_ok haround
        · exact ⟨rfl, rfl, rfl, rfl, rfl⟩
      obtain ⟨hstatus', henacts⟩ := enterStates_enacts hrest
      refine ⟨hstatus'.trans (hstatus₂.trans hstatus), ?_⟩
      have hstate := enacts_execute (k := .entered state) rfl hentry
      refine .pause ?_ (hstate.trans (.pause hpause henacts))
      exact ⟨rfl, rfl, rfl, rfl⟩

/-- To enter states is to carry out their entry actions, and if this ends the machine, the exit
actions of all states that are active then. -/
theorem enter_enacts {entering : List Nat} (hactive : w.snapshot.status = .active)
    (h : m.enter event entering w = .ok () w') :
    ∃ live : Bool, w'.snapshot.status = (if live then .active else .done) ∧
      m.Enacts (entering.map .entered ++
        (if live then [] else w'.snapshot.config.toList.reverse).map .exited) w w' := by
  obtain ⟨w₁, hstates, ⟨-, hexits⟩ | ⟨-, rfl⟩⟩ := enter_parts h
  · obtain ⟨-, henacts⟩ := enterStates_enacts hstates
    obtain ⟨hconfig, hstatus, henacts'⟩ := runExits_enacts hexits
    refine ⟨false, hstatus, ?_⟩
    rw [hconfig]
    refine henacts.trans (.pause ?_ henacts')
    exact ⟨rfl, rfl, rfl, rfl⟩
  · obtain ⟨hstatus, henacts⟩ := enterStates_enacts hstates
    exact ⟨true, hstatus.trans hactive, henacts.trans .nil⟩

/-! ## Whole rounds -/

variable (m) in
/-- One more round, which an active machine may come to its end with. -/
def Turns (w w' : Work) : Prop :=
  ∃ (r : Round) (live : Bool), r.Leads w.snapshot.config w'.snapshot.config live ∧
    m.Enacts r.marks w w' ∧ w'.snapshot.status = if live then .active else .done

/-- Transitions that are in their place are so when they are permitted. -/
theorem placed_permitted (wf : m.definition.WellFormed) {ts : List Nat}
    (hlt : ∀ i ∈ ts, i < m.definition.transitions.size) :
    ∀ t ∈ m.definition.permitted ts, m.definition.transition t.index = t := by
  intro t ht
  obtain ⟨i, hi, rfl, -⟩ := Definition.mem_permitted.mp ht
  rw [wf.transition_index i (hlt i hi)]

/-- A microstep of an active machine does nothing or is a round. -/
theorem microstep_turns (wf : m.definition.WellFormed) {ts : List Nat}
    (hlt : ∀ i ∈ ts, i < m.definition.transitions.size) (hactive : w.snapshot.status = .active)
    (h : m.microstep ts event w = .ok () w') : w' = w ∨ m.Turns w w' := by
  rcases microstep_parts h with ⟨-, rfl⟩ | ⟨w₁, w₂, hexit, hrun, henter⟩
  · exact .inl rfl
  · obtain ⟨hstatus₁, henacts₁⟩ := exitStates_enacts hexit
    have hstatus₂ := runTransitions_status hrun
    have henacts₂ := runTransitions_enacts (placed_permitted wf hlt) hrun
    obtain ⟨live, hstatus, henacts⟩ :=
      enter_enacts (hstatus₂.trans (hstatus₁.trans hactive)) henter
    obtain ⟨-, hmem₁⟩ := exitStates_ok hexit
    obtain ⟨hconfig₂, -⟩ := m.kept_by_acts runs_runTransitions hrun
    obtain ⟨-, hmem⟩ := enter_ok henter
    -- what is active between exits and entries was active and has not been left
    have hleft : ∀ i, i ∈ w₂.snapshot.config ↔ i ∈ w.snapshot.config ∧
        i ∉ (m.leaving w.snapshot (m.definition.permitted ts)).toList.reverse := by
      intro i
      rw [hconfig₂]
      exact hmem₁ i
    refine .inr ⟨{
        transitions := some ((m.definition.permitted ts).map Transition.index)
        exits := (m.leaving w.snapshot (m.definition.permitted ts)).toList.reverse
        entries := (m.definition.entrySet w₂.snapshot.history
          (m.definition.permitted ts)).toList.filter fun state => !w₂.snapshot.config.contains state
        last := if live then [] else w'.snapshot.config.toList.reverse }, live, ?_, ?_, hstatus⟩
    · constructor
      · intro i hi
        obtain ⟨t, -, hexit⟩ := mem_leaving.mp ((NodeSet.mem_toList _ _).mp (List.mem_reverse.mp hi))
        exact (Definition.mem_exitSet_iff.mp hexit).1
      · exact List.pairwise_reverse.mpr (NodeSet.sorted_toList _)
      · intro i hi hactive
        by_contra hno
        have hfresh := (List.mem_filter.mp hi).2
        rw [(hleft i).mpr ⟨hactive, hno⟩] at hfresh
        cases hfresh
      · exact (NodeSet.sorted_toList _).filter _
      · intro i
        rw [hmem i, hleft i]
      · rfl
    · have hall := (henacts₁.trans henacts₂).trans henacts
      -- the microstep begins, and remembers what it leaves
      have hnothing : m.CarriesOut event [] w w := .nil
      have hbegin : m.Enacts
          (.microstep ((m.definition.permitted ts).map Transition.index) :: _) w w' :=
        .act rfl hnothing (.pause ?_ hall)
      · simpa [Round.marks] using hbegin
      · exact ⟨rfl, rfl, rfl, rfl⟩

/-- The first entry is a round. -/
theorem enterInitial_turns (hactive : w.snapshot.status = .active)
    (hempty : w.snapshot.config = .empty) (h : m.enterInitial event w = .ok () w') :
    m.Turns w w' := by
  obtain ⟨live, hstatus, henacts⟩ := enter_enacts hactive h
  obtain ⟨-, hmem⟩ := enter_ok h
  refine ⟨{
      transitions := none
      exits := []
      entries := m.definition.initialEntrySet.toList
      last := if live then [] else w'.snapshot.config.toList.reverse }, live,
    ⟨by simp, .nil, ?_, NodeSet.sorted_toList _, ?_, rfl⟩, ?_, hstatus⟩
  · intro i _ hi
    rw [hempty] at hi
    exact absurd hi (NodeSet.not_mem_empty i)
  · intro i
    rw [hmem i]
    simp
  · exact henacts

/-- A stop is a round in which nothing is left and nothing entered. -/
theorem stop_leads (config : Configuration) :
    Round.Leads { transitions := none, exits := [], entries := [], last := config.toList.reverse }
      config config false :=
  ⟨by simp, .nil, by simp, .nil, by simp, rfl⟩

/-! ## Macrosteps -/

section

variable {told : List Mark} {first : Work} {last : Event}

variable (m) in
/-- A step has gone on from what is told already, and has done nothing but what its marks say. -/
def Continues (told : List Mark) (first w : Work) : Prop :=
  ∃ ks, m.Enacts ks first w ∧ Chronicle (told ++ ks) w.snapshot.config w.snapshot.status

theorem Continues.pause (hw : m.Continues told first w) (h : w.Pauses w')
    (hconfig : w'.snapshot.config = w.snapshot.config)
    (hstatus : w'.snapshot.status = w.snapshot.status) : m.Continues told first w' := by
  obtain ⟨ks, henacts, hchronicle⟩ := hw
  rw [← hconfig, ← hstatus] at hchronicle
  exact ⟨ks, henacts.rest h, hchronicle⟩

theorem Continues.turn (hw : m.Continues told first w) (hactive : w.snapshot.status = .active)
    (h : m.Turns w w') : m.Continues told first w' := by
  obtain ⟨ks, henacts, hchronicle⟩ := hw
  obtain ⟨r, live, hr, henacts', hstatus⟩ := h
  rw [hactive] at hchronicle
  refine ⟨ks ++ r.marks, henacts.trans henacts', ?_⟩
  rw [hstatus, ← List.append_assoc]
  exact hchronicle.turn hr

variable (wf : m.definition.WellFormed)

include wf

theorem continues_microstep {ts : List Nat}
    (hlt : ∀ i ∈ ts, i < m.definition.transitions.size) (h : m.microstep ts event w = .ok () w')
    (hactive : w.snapshot.status = .active) (hw : m.Continues told first w) :
    m.Continues told first w' := by
  rcases microstep_turns wf hlt hactive h with rfl | hturns
  · exact hw
  · exact hw.turn hactive hturns

theorem continues_handle (h : m.handle event w = .ok () w') (hactive : w.snapshot.status = .active)
    (hw : m.Continues told first w) : m.Continues told first w' := by
  have hmarked : ∀ ts, m.Continues told first { w with journal := .handled event ts :: w.journal } :=
    fun _ => hw.pause (.marked w rfl) rfl rfl
  obtain ⟨ts, hselect, ⟨-, -, rfl⟩ | ⟨-, -, rfl⟩ | ⟨-, hstep⟩⟩ := handle_ok h
  · obtain ⟨ks, henacts, hchronicle⟩ := hmarked []
    have hchronicle : Chronicle (told ++ ks) w.snapshot.config .active := hactive ▸ hchronicle
    exact ⟨ks, henacts.rest ⟨rfl, rfl, rfl, rfl⟩, hchronicle.error⟩
  · exact hmarked []
  · exact continues_microstep wf (wf.selection_of_select hselect).lt hstep hactive (hmarked ts)

/-- A macrostep goes on by rounds. -/
theorem continues_settle {fuel : Nat} {pending : Option Event} (hw : m.Continues told first w)
    (h : m.settle fuel pending last w = .ok () w') : m.Continues told first w' := by
  induction fuel generalizing pending last w with
  | zero =>
      obtain ⟨_, _, -, h⟩ := bind_eq_ok h
      cases h
  | succ fuel ih =>
      by_cases hactive : w.snapshot.status = .active
      · rcases settle_ok h with ⟨rfl, -⟩ | ⟨ts, w₁, hselect, hstep, h⟩ |
          ⟨next, rest, w₁, -, hhandle, h⟩ | ⟨external, w₁, w₂, -, -, hrelease, hhandle, h⟩
        · exact hw
        · have hmarked : m.Continues told first
              { w with journal := .eventless last ts :: w.journal } :=
            hw.pause (.marked w rfl) rfl rfl
          exact ih (continues_microstep wf (wf.selection_of_selectEventless hselect).lt hstep
            hactive hmarked) h
        · -- to take an event from the queue is to carry out nothing
          have hqueue : m.Continues told first { w with internal := rest } :=
            hw.pause ⟨rfl, rfl, rfl, rfl⟩ rfl rfl
          exact ih (continues_handle wf hhandle hactive hqueue) h
        · obtain ⟨children, rfl⟩ := releaseCompleted_ok hrelease
          have hreleased : m.Continues told first
              { w with snapshot := { w.snapshot with children } } :=
            hw.pause ⟨rfl, rfl, rfl, rfl⟩ rfl rfl
          exact ih (continues_handle wf hhandle hactive hreleased) h
      · rw [settle_inactive hactive h]
        exact hw

end

end Machine

end Statechart
