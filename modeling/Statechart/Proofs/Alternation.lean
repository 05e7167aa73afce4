import Statechart.Proofs.Rounds

/-!
# Entry and exit actions in turn

The lives of the states of a machine, from its first entry over any transitions and stops.
`actions_alternate`: every state's entry and exit actions are carried out in turn. While the machine
is active or has failed, the active states are those that have been entered once more than left; once
it is done or stopped, every entry has had its exit. All of this comes in rounds: first the exits,
descendants before ancestors, then the transitions, then the entries, ancestors before descendants.
The marks that tell so are put down each when the actions that it stands for are through, and nothing
else is carried out (`Machine.Enacts`).
-/

namespace Statechart

/-! ## Executions -/

/-- What a mark tells of the entry actions of a state, `true`, and of its exit actions, `false`. -/
def Mark.execution (i : Nat) : Mark → Option Bool
  | .entered j => if j = i then some true else none
  | .exited j => if j = i then some false else none
  | _ => none

/-- When the entry and exit actions of a state were carried out, in order. -/
def executions (i : Nat) (marks : List Mark) : List Bool := marks.filterMap (Mark.execution i)

/-- Entries and exits in turn, first an entry. -/
def InTurn (executions : List Bool) : Prop := (false :: executions).IsChain (· ≠ ·)

/-- Whether a state is inside after executions in turn. -/
def inside : Bool → List Bool → Option Bool
  | now, [] => some now
  | now, next :: rest => if now = next then none else inside next rest

theorem inside_append (now : Bool) (l l' : List Bool) :
    inside now (l ++ l') = (inside now l).bind (inside · l') := by
  induction l generalizing now with
  | nil => rfl
  | cons next rest ih =>
      rw [List.cons_append, inside, inside]
      split
      · rfl
      · exact ih next

theorem chain_of_inside {now then' : Bool} {l : List Bool} (h : inside now l = some then') :
    (now :: l).IsChain (· ≠ ·) ∧ l.count true + now.toNat = l.count false + then'.toNat := by
  induction l generalizing now with
  | nil =>
      cases h
      exact ⟨.singleton _, rfl⟩
  | cons next rest ih =>
      rw [inside] at h
      split at h
      · cases h
      · rename_i hne
        obtain ⟨hchain, hcount⟩ := ih h
        refine ⟨hchain.cons_cons hne, ?_⟩
        cases now <;> cases next <;> simp_all
        all_goals omega

variable {i : Nat}

theorem executions_append (l l' : List Mark) :
    executions i (l ++ l') = executions i l ++ executions i l' := List.filterMap_append

/-- Only moves tell of executions. -/
theorem executions_filter (l : List Mark) :
    executions i (l.filter Mark.isMove) = executions i l := by
  rw [executions, executions, List.filterMap_filter]
  refine List.filterMap_congr fun k _ => ?_
  cases k <;> rfl

/-- A list of states without repetition tells of each state in it once. -/
theorem filterMap_once {l : List Nat} (h : l.Nodup) (b : Bool) :
    (l.filterMap fun j => if j = i then some b else none) = if i ∈ l then [b] else [] := by
  induction l with
  | nil => rfl
  | cons j rest ih =>
      obtain ⟨hj, hrest⟩ := List.nodup_cons.mp h
      by_cases hi : j = i
      · subst hi
        simp [ih hrest, hj]
      · simp [ih hrest, hi, Ne.symm hi]

theorem executions_taken (l : List Nat) : executions i (l.map .taken) = [] := by
  induction l with
  | nil => rfl
  | cons _ rest ih => exact ih

/-- What a round does to a state. -/
theorem Round.executions_marks {r : Round} (hexits : r.exits.Nodup) (hentries : r.entries.Nodup)
    (hlast : r.last.Nodup) : executions i r.marks =
      (if i ∈ r.exits then [false] else []) ++ (if i ∈ r.entries then [true] else []) ++
        if i ∈ r.last then [false] else [] := by
  have hexited : ∀ {l : List Nat}, l.Nodup →
      executions i (l.map .exited) = if i ∈ l then [false] else [] := fun h => by
    rw [executions, List.filterMap_map]
    exact filterMap_once h false
  have hentered : executions i (r.entries.map .entered) =
      if i ∈ r.entries then [true] else [] := by
    rw [executions, List.filterMap_map]
    exact filterMap_once hentries true
  have hbegin : executions i (r.transitions.map Mark.microstep).toList = [] := by
    cases r.transitions <;> rfl
  rw [marks, executions_append, executions_append, executions_append, executions_append, hbegin,
    hexited hexits, executions_taken, hentered, hexited hlast, List.nil_append, List.append_nil]

/-! ## Itineraries -/

/-- A round takes a state out if it was active, puts it in if it is active then, and takes it out
again at the end of the machine. -/
theorem Round.Leads.inside {r : Round} {config next : Configuration} {live : Bool}
    (h : r.Leads config next live) (i : Nat) :
    inside (config.contains i) (executions i r.marks) = some (live && next.contains i) := by
  have hmem : ∀ config : Configuration, config.contains i = decide (i ∈ config) := fun config =>
    (Bool.decide_coe _).symm
  have hlast : r.last.Nodup := by
    rw [h.last_eq]
    split
    · exact .nil
    · exact List.nodup_reverse.mpr (NodeSet.nodup_toList next)
  rw [executions_marks (h.exits_sorted.imp Nat.ne_of_gt) (h.entries_sorted.imp Nat.ne_of_lt) hlast,
    h.last_eq, hmem, hmem]
  have hnext := h.mem_next i
  have hexit := h.exits_mem i
  have hfresh := h.entries_fresh i
  by_cases hc : i ∈ config <;> by_cases hx : i ∈ r.exits <;> by_cases hn : i ∈ r.entries <;>
    cases live <;> simp_all [Statechart.inside]

/-- While the rounds go on a state is inside exactly if it is active; then none is. -/
theorem Itinerary.inside {rounds : List Round} {config : Configuration} {live : Bool}
    (h : Itinerary rounds config live) (i : Nat) :
    inside false (executions i (rounds.flatMap Round.marks)) =
      some (live && config.contains i) := by
  induction h with
  | nil =>
      have hno : NodeSet.empty.contains i = false :=
        Bool.eq_false_iff.mpr (NodeSet.not_mem_empty i)
      simp [executions, Statechart.inside, hno]
  | @snoc rounds r config next live _ hr ih =>
      rw [List.flatMap_append, executions_append, inside_append, ih, List.flatMap_singleton]
      exact hr.inside i

/-- Before its end a machine carries out no exit actions after the entries of a round. -/
theorem Itinerary.last_eq_nil {rounds : List Round} {config : Configuration} {live : Bool}
    (h : Itinerary rounds config live) (hlive : live = true) : ∀ r ∈ rounds, r.last = [] := by
  induction h with
  | nil => simp
  | snoc _ hr ih =>
      intro r hmem
      rcases List.mem_append.mp hmem with hmem | hmem
      · exact ih rfl r hmem
      · rw [List.mem_singleton.mp hmem, hr.last_eq, if_pos hlive]

/-- Descendants are left before their ancestors, and ancestors are entered before their
descendants. -/
structure Round.Ordered (d : Definition Logic) (r : Round) : Prop where
  exits : r.exits.Pairwise fun i j => ¬ d.Below j i
  entries : r.entries.Pairwise fun i j => ¬ d.Below i j
  last : r.last.Pairwise fun i j => ¬ d.Below j i

theorem Round.Leads.ordered {d : Definition Logic} (wf : d.WellFormed) {r : Round}
    {config next : Configuration} {live : Bool} (h : r.Leads config next live) : r.Ordered d := by
  refine ⟨h.exits_sorted.imp fun hlt hbelow => Nat.lt_asymm hlt (wf.lt_of_below hbelow),
    h.entries_sorted.imp fun hlt hbelow => Nat.lt_asymm hlt (wf.lt_of_below hbelow), ?_⟩
  rw [h.last_eq]
  split
  · exact .nil
  · exact List.pairwise_reverse.mpr ((NodeSet.sorted_toList next).imp fun hlt hbelow =>
      Nat.lt_asymm hlt (wf.lt_of_below hbelow))

theorem Itinerary.ordered {d : Definition Logic} (wf : d.WellFormed) {rounds : List Round}
    {config : Configuration} {live : Bool} (h : Itinerary rounds config live) :
    ∀ r ∈ rounds, r.Ordered d := by
  induction h with
  | nil => simp
  | snoc _ hr ih =>
      intro r hmem
      rcases List.mem_append.mp hmem with hmem | hmem
      · exact ih r hmem
      · rw [List.mem_singleton.mp hmem]
        exact hr.ordered wf

/-- Only the last round of a machine that has come to its end goes on after the entries, with the
exits of all states that are active. -/
theorem Itinerary.ends {rounds : List Round} {config : Configuration} {live : Bool}
    (h : Itinerary rounds config live) : (∀ r ∈ rounds.dropLast, r.last = []) ∧
      ∀ r ∈ rounds.getLast?, r.last = if live then [] else config.toList.reverse := by
  cases h with
  | nil => simp
  | snoc hcourse hr =>
      refine ⟨fun r hmem => hcourse.last_eq_nil rfl r (by simpa using hmem), fun r hmem => ?_⟩
      obtain rfl := by simpa using hmem
      exact hr.last_eq

namespace Machine

open StepM

variable (m : Machine)

/-! ## Lives -/

/-- A step of a machine: the state that it sets out in and the one that it comes to. -/
structure Stretch where
  first : Work
  last : Work

/-- The state that a step from a snapshot sets out in. -/
def beginning (scope : Scope) (s : MachineSnapshot) : Work :=
  begin { scope with system := scope.system.pinning (s.children.map Prod.snd) } s

/-- The step from a snapshot, by what has become of it. -/
def stretch (scope : Scope) (s : MachineSnapshot) : EStateM.Result ActorError Work Unit → Stretch
  | .ok _ w => { first := beginning scope s, last := w }
  | .error _ w => { first := beginning scope s, last := w }

/-- What a step has done, in order, whether it went through or not. -/
def marksOf : EStateM.Result ActorError Work Unit → List Mark
  | .ok _ w => w.marks
  | .error _ w => w.marks

/-- What is done for an event. -/
def transitionMarks (scope : Scope) (s : MachineSnapshot) (event : Event) : List Mark :=
  if s.status = .active then marksOf (m.transitionRun scope s event) else []

/-- What is done for a stop. -/
def stopMarks (scope : Scope) (s : MachineSnapshot) : List Mark :=
  if s.status = .active then marksOf (m.stopRun scope s) else []

/-- The steps that an event leads to: one if the machine is active. -/
def transitionStretches (scope : Scope) (s : MachineSnapshot) (event : Event) : List Stretch :=
  if s.status = .active then [stretch scope s (m.transitionRun scope s event)] else []

/-- The steps that a stop leads to. -/
def stopStretches (scope : Scope) (s : MachineSnapshot) : List Stretch :=
  if s.status = .active then [stretch scope s (m.stopRun scope s)] else []

/-- The lives of a machine's states: the steps of a run whose calls all went through, and the
snapshot that the last one returned. -/
inductive Lives : List Stretch → MachineSnapshot → Prop
  | initial {scope scope' : Scope} {input : Json} {s : MachineSnapshot} :
      m.initialState scope input = (scope', .ok s) →
        Lives [stretch scope (.start m.definition (m.initialContext input))
          (m.initialRun scope input)] s
  | next {scope scope' : Scope} {s s' : MachineSnapshot} {event : Event} {lived : List Stretch} :
      Lives lived s → m.transition scope s event = (scope', .ok s') →
        Lives (lived ++ m.transitionStretches scope s event) s'
  | stop {scope scope' : Scope} {s s' : MachineSnapshot} {lived : List Stretch} :
      Lives lived s → m.stop scope s = (scope', .ok s') →
        Lives (lived ++ m.stopStretches scope s) s'

/-- All that was done in some steps, in order. -/
def toldBy (lived : List Stretch) : List Mark := lived.flatMap fun x => x.last.marks

variable {m} {lived : List Stretch} {s s' : MachineSnapshot} {scope scope' : Scope}

theorem toldBy_append (lived lived' : List Stretch) :
    toldBy (lived ++ lived') = toldBy lived ++ toldBy lived' := List.flatMap_append

theorem toldBy_stretch (scope : Scope) (s : MachineSnapshot)
    (run : EStateM.Result ActorError Work Unit) : toldBy [stretch scope s run] = marksOf run := by
  cases run <;> exact List.append_nil _

theorem toldBy_transition (m : Machine) (scope : Scope) (s : MachineSnapshot) (event : Event) :
    toldBy (m.transitionStretches scope s event) = m.transitionMarks scope s event := by
  rw [transitionStretches, transitionMarks]
  split
  · exact toldBy_stretch scope s _
  · rfl

theorem toldBy_stop (m : Machine) (scope : Scope) (s : MachineSnapshot) :
    toldBy (m.stopStretches scope s) = m.stopMarks scope s := by
  rw [stopStretches, stopMarks]
  split
  · exact toldBy_stretch scope s _
  · rfl

/-! ## Steps that go through -/

variable (m) in
/-- A step has done nothing but what its marks say. -/
def Truthful (x : Stretch) : Prop := m.Enacts x.last.moves x.first x.last

/-- What is enacted since a step set out are all of its moves. -/
theorem Truthful.of_enacts {x : Stretch} {ks : List Mark} (hfirst : x.first.moves = [])
    (h : m.Enacts ks x.first x.last) : ks = x.last.moves ∧ m.Truthful x := by
  have hmoves := h.moves
  rw [hfirst, List.nil_append] at hmoves
  refine ⟨hmoves.symm, ?_⟩
  rw [Truthful, hmoves]
  exact h

/-- A step that has gone on from what was told is truthful, and is told after it. -/
theorem Continues.stretch {told : List Mark} {w : Work}
    (h : m.Continues told (beginning scope s) w) :
    m.Truthful (Machine.stretch scope s (.ok () w)) ∧
      Chronicle (told ++ w.moves) w.snapshot.config w.snapshot.status := by
  obtain ⟨ks, henacts, hchronicle⟩ := h
  obtain ⟨rfl, htruthful⟩ :=
    Truthful.of_enacts (x := Machine.stretch scope s (.ok () w)) rfl henacts
  exact ⟨htruthful, hchronicle⟩

/-- A stop of an active machine carries out the exit actions of all active states. -/
theorem stop_ok (hactive : s.status = .active) (h : m.stop scope s = (scope', .ok s')) :
    s'.config = s.config ∧ s'.status = .stopped ∧
      m.Truthful (stretch scope s (m.stopRun scope s)) ∧
      (m.stopMarks scope s).filter Mark.isMove = s.config.toList.reverse.map .exited := by
  rw [stop, if_pos hactive] at h
  cases hrun : m.stopRun scope s with
  | error e w =>
      rw [hrun] at h
      cases h
  | ok _ w =>
      rw [hrun] at h
      cases h
      obtain ⟨_, w₁, hall, hstopped⟩ := bind_eq_ok hrun
      obtain ⟨_, _, hget, hexits⟩ := bind_eq_ok hall
      cases hget
      cases hstopped
      obtain ⟨hconfig, -, henacts⟩ := runExits_enacts hexits
      obtain ⟨hmoves, htruthful⟩ := Truthful.of_enacts
        (x := stretch scope s (.ok ()
          { w₁ with snapshot := { w₁.snapshot with status := .stopped } })) rfl
        (henacts.rest ⟨rfl, rfl, rfl, rfl⟩)
      refine ⟨hconfig, rfl, htruthful, ?_⟩
      rw [stopMarks, if_pos hactive, hrun]
      exact hmoves.symm

/-- The stop of an active machine is its last round. -/
theorem stop_course {told : List Mark} {rounds : List Round} (hactive : s.status = .active)
    (hcourse : Itinerary rounds s.config true) (hmoves : told.filter Mark.isMove =
      rounds.flatMap Round.marks) (h : m.stop scope s = (scope', .ok s')) :
    ∃ rounds', Itinerary rounds' s'.config false ∧
      (told ++ m.stopMarks scope s).filter Mark.isMove = rounds'.flatMap Round.marks := by
  obtain ⟨hconfig, -, -, hstop⟩ := stop_ok hactive h
  rw [hconfig]
  refine ⟨_, hcourse.snoc (stop_leads s.config), ?_⟩
  rw [List.filter_append, hmoves, hstop]
  simp [Round.marks]

/-- A machine that is not active is only declared to be stopped. -/
theorem stop_inactive (m : Machine) (scope : Scope) (hstatus : s.status ≠ .active) :
    m.stop scope s = (scope, .ok { s with status := .stopped }) ∧ m.stopMarks scope s = [] := by
  rw [stop, stopMarks, if_neg hstatus, if_neg hstatus]
  exact ⟨rfl, rfl⟩

/-! ## Whole lives -/

/-- All that is done to states comes in rounds, and is what the marks of each step say. -/
theorem Lives.chronicle (wf : m.definition.WellFormed) (h : m.Lives lived s) :
    (∀ x ∈ lived, m.Truthful x) ∧
      Chronicle ((toldBy lived).filter Mark.isMove) s.config s.status := by
  induction h with
  | @initial scope _ input s h =>
      obtain ⟨w, hrun, rfl⟩ := outcome_ok h
      rw [toldBy_stretch, hrun]
      obtain ⟨_, w₁, henter, hsettle⟩ := bind_eq_ok hrun
      have hbegin : m.Continues [] _
          (beginning scope (.start m.definition (m.initialContext input))) :=
        ⟨[], .nil, [], true, .nil, rfl, fun _ => rfl, fun h => by cases h⟩
      have hentered := hbegin.turn rfl (enterInitial_turns rfl rfl henter)
      obtain ⟨htruthful, hchronicle⟩ := (continues_settle wf hentered hsettle).stretch
      exact ⟨List.forall_mem_singleton.mpr htruthful, hchronicle⟩
  | @next scope _ s s' event lived _ h ih =>
      obtain ⟨htruthful, hchronicle⟩ := ih
      rw [toldBy_append, toldBy_transition, List.filter_append]
      by_cases hactive : s.status = .active
      · rw [transition, if_pos hactive] at h
        obtain ⟨w, hrun, rfl⟩ := outcome_ok h
        rw [transitionStretches, transitionMarks, if_pos hactive, if_pos hactive, hrun]
        have hbegin : m.Continues ((toldBy lived).filter Mark.isMove) _ (beginning scope s) :=
          ⟨[], .nil, by rwa [List.append_nil]⟩
        obtain ⟨htruthful', hchronicle⟩ := (continues_settle wf hbegin hrun).stretch
        exact ⟨List.forall_mem_append.mpr ⟨htruthful, List.forall_mem_singleton.mpr htruthful'⟩,
          hchronicle⟩
      · rw [transition, if_neg hactive] at h
        cases h
        rw [transitionStretches, transitionMarks, if_neg hactive, if_neg hactive, List.filter_nil,
          List.append_nil, List.append_nil]
        exact ⟨htruthful, hchronicle⟩
  | @stop scope _ s s' lived _ h ih =>
      obtain ⟨htruthful, rounds, live, hcourse, hrounds, hlive, -⟩ := ih
      rw [toldBy_append, toldBy_stop]
      by_cases hactive : s.status = .active
      · obtain rfl : live = true := hlive (.inl hactive)
        obtain ⟨-, hstatus, htruthful', -⟩ := stop_ok hactive h
        obtain ⟨rounds', hcourse', hrounds'⟩ := stop_course hactive hcourse hrounds h
        rw [stopStretches, if_pos hactive]
        exact ⟨List.forall_mem_append.mpr ⟨htruthful, List.forall_mem_singleton.mpr htruthful'⟩,
          rounds', false, hcourse', hrounds', by simp [hstatus], by simp⟩
      · obtain ⟨hstop, hnone⟩ := stop_inactive m scope hactive
        rw [hstop] at h
        cases h
        -- nothing is carried out at the stop of a machine that is not active
        rw [stopStretches, if_neg hactive, List.append_nil, hnone, List.append_nil]
        exact ⟨htruthful, rounds, live, hcourse, hrounds, by simp, by simp⟩

/-- After any run a state is inside, by the executions of its entry and exit actions, if it is
active and the machine has not come to its end. -/
theorem Lives.inside (wf : m.definition.WellFormed) (h : m.Lives lived s) : ∃ live : Bool,
    (s.status = .active ∨ s.status = .error → live = true) ∧ (s.status = .done → live = false) ∧
      ∀ i, Statechart.inside false (executions i (toldBy lived)) =
        some (live && s.config.contains i) := by
  obtain ⟨-, rounds, live, hcourse, hmoves, hlive, hdone⟩ := h.chronicle wf
  refine ⟨live, hlive, hdone, fun i => ?_⟩
  rw [← executions_filter, hmoves]
  exact hcourse.inside i

/-- The entry and exit actions of each state are carried out in turn. An active or failed machine
is in those states that it has entered once more than left. When it is done, or stopped while it was
active, it has left each state as often as entered, and a later stop leaves none again. All this
comes in rounds, in each of which exits come before transitions and these before entries.

The marks that tell of executions are put down each when its list of actions is through, and nothing
else is carried out. -/
theorem actions_alternate {raw : MachineConfig} (hkeys : raw.root.KeysDistinct)
    (hbuild : Definition.build raw = .ok m.definition) (h : m.Lives lived s) :
    (∀ x ∈ lived, m.Enacts (x.last.marks.filter Mark.isMove) x.first x.last) ∧
    (∀ i, InTurn (executions i (toldBy lived))) ∧
    (s.status = .active ∨ s.status = .error → ∀ i, i ∈ s.config ↔
      (executions i (toldBy lived)).count true =
        (executions i (toldBy lived)).count false + 1) ∧
    (s.status = .done → ∀ i, (executions i (toldBy lived)).count true =
      (executions i (toldBy lived)).count false) ∧
    (s.status = .active → ∀ scope scope' s', m.stop scope s = (scope', .ok s') →
      s'.status = .stopped ∧ ∀ i,
        (executions i (toldBy lived ++ m.stopMarks scope s)).count true =
          (executions i (toldBy lived ++ m.stopMarks scope s)).count false) ∧
    (s.status = .done ∨ s.status = .stopped → ∀ scope,
      m.stop scope s = (scope, .ok { s with status := .stopped }) ∧ m.stopMarks scope s = []) ∧
    ∃ rounds : List Round, (toldBy lived).filter Mark.isMove = rounds.flatMap Round.marks ∧
      (∀ r ∈ rounds, r.Ordered m.definition) ∧ (∀ r ∈ rounds.dropLast, r.last = []) ∧
        ∀ r ∈ rounds.getLast?, r.last = [] ∨
          (s.status = .done ∨ s.status = .stopped) ∧ r.last = s.config.toList.reverse := by
  have wf := Definition.wellFormed_of_build hkeys hbuild
  refine ⟨(h.chronicle wf).1, fun i => ?_, fun hstatus i => ?_, fun hstatus i => ?_,
    fun hactive scope scope' s' hstop => ?_, fun hstatus scope => ?_, ?_⟩
  · obtain ⟨live, -, -, hinside⟩ := h.inside wf
    exact (chain_of_inside (hinside i)).1
  · obtain ⟨live, hlive, -, hinside⟩ := h.inside wf
    have hcount := (chain_of_inside (hinside i)).2
    rw [hlive hstatus, Bool.true_and, Bool.toNat_false, Nat.add_zero] at hcount
    rw [hcount, Nat.add_left_cancel_iff, Bool.toNat_eq_one]
    exact Iff.rfl
  · obtain ⟨live, -, hdone, hinside⟩ := h.inside wf
    have hcount := (chain_of_inside (hinside i)).2
    simpa [hdone hstatus] using hcount
  · obtain ⟨-, rounds, live, hcourse, hmoves, hlive, -⟩ := h.chronicle wf
    obtain rfl : live = true := hlive (.inl hactive)
    -- the stop adds a last part to the rounds, of exits only
    obtain ⟨rounds', hcourse', hmoves'⟩ := stop_course hactive hcourse hmoves hstop
    refine ⟨(stop_ok hactive hstop).2.1, fun i => ?_⟩
    have hcount := (chain_of_inside (hcourse'.inside i)).2
    rwa [← hmoves', executions_filter] at hcount
  · exact stop_inactive _ _ fun hactive => by simp [hactive] at hstatus
  · obtain ⟨-, rounds, live, hcourse, hmoves, hlive, -⟩ := h.chronicle wf
    refine ⟨rounds, hmoves, hcourse.ordered wf, hcourse.ends.1, fun r hr => ?_⟩
    have hlast := hcourse.ends.2 r hr
    cases live with
    | true => exact .inl hlast
    | false =>
        refine .inr ⟨?_, hlast⟩
        cases hs : s.status <;> simp_all

/-- A walk that can begin anew before it ends at home. Each entry, exit and transition writes a line
to the log. -/
def walkConfig : MachineConfig :=
  let line (label : String) : List ActionConfig := [.log (some label) none]
  let way (target label : String) : Option (List TransitionConfig) :=
    some [{ target := [target], actions := line label }]
  { root := .node { id := some "walk", initial := some "out" }
      (some [
        ("out", .node { entry := line "go out", exit := line "go in", initial := some "street" }
          (some [("street", .node
            { entry := line "step on"
              exit := line "step off"
              on := some [("AGAIN", way "#walk.out" "turn round"),
                ("BACK", way "#walk.home" "turn back")] } none)])),
        ("home", .node
          { kind := some .final, entry := line "sit down", exit := line "get up" } none)]) }

/-- The walk with nothing supplied. -/
def walk : Machine where
  definition := (Definition.build walkConfig).toOption.getD default
  implementations := default
  spawn := default

/-- The lines that a step has written to the log, in order. -/
def Stretch.lines (x : Stretch) : List Json :=
  x.last.snapshot.actions.filterMap fun a => if a.kind = "log" then a.params.get? "label" else none

/-- The walk on the street, on it again, and at home. -/
def walkOut : MachineSnapshot := (walk.initialState default .null).2.toOption.getD default

def walkAgain : MachineSnapshot :=
  (walk.transition default walkOut (.named "AGAIN")).2.toOption.getD default

def walkBack : MachineSnapshot :=
  (walk.transition default walkAgain (.named "BACK")).2.toOption.getD default

/-- The steps of the walk. -/
def walkLived : List Stretch :=
  [stretch default (.start walk.definition (walk.initialContext .null))
      (walk.initialRun default .null)] ++
    walk.transitionStretches default walkOut (.named "AGAIN") ++
      walk.transitionStretches default walkAgain (.named "BACK")

/-- The walk begins anew, and then ends. The log tells in which order actions were carried out: exits
before transitions, these before entries, and the exit at the end of the machine last. -/
theorem walk_alternates : walk.Lives walkLived walkBack ∧ walkBack.status = .done ∧
    walkLived.map Stretch.lines = [[.str "go out", .str "step on"],
      [.str "step off", .str "go in", .str "turn round", .str "go out", .str "step on"],
      [.str "step off", .str "go in", .str "turn back", .str "sit down", .str "get up"]] ∧
    (∀ x ∈ walkLived, walk.Enacts (x.last.marks.filter Mark.isMove) x.first x.last) ∧
    executions 1 (toldBy walkLived) = [true, false, true, false] ∧
    InTurn (executions 1 (toldBy walkLived)) ∧
      ∀ i, (executions i (toldBy walkLived)).count true =
        (executions i (toldBy walkLived)).count false := by
  have hkeys : walkConfig.root.KeysDistinct := by
    simp [walkConfig, StateConfig.KeysDistinct, StateConfig.KeysDistinctAll]
  have hbuild : (Definition.build (L := Logic) walkConfig).isOk = true := by decide +kernel
  have hout : (walk.initialState default .null).2.isOk = true := by decide +kernel
  have hagain : (walk.transition default walkOut (.named "AGAIN")).2.isOk = true := by
    decide +kernel
  have hback : (walk.transition default walkAgain (.named "BACK")).2.isOk = true := by
    decide +kernel
  have hlives : walk.Lives walkLived walkBack :=
    .next (.next (.initial (pair_of_isOk hout)) (pair_of_isOk hagain)) (pair_of_isOk hback)
  have hdone : walkBack.status = .done := by decide +kernel
  obtain ⟨henacts, hturns, -, hequal, -⟩ := actions_alternate hkeys (ok_of_isOk hbuild) hlives
  exact ⟨hlives, hdone, by decide +kernel, henacts, by decide +kernel, hturns 1, hequal hdone⟩

end Machine

end Statechart
