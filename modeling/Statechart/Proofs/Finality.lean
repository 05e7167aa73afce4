import Statechart.Proofs.Draining

/-!
# The end of a machine

A machine is done exactly when its root is complete. Only an entry pass can complete the root, and
when it is over it looks whether it has (`enter_concludes`); the exit actions that follow move
nothing. An error that nothing is selected for fails a machine between two microsteps and leaves the
root as it was, which was not complete then. `Phase.agrees` takes this through all phases of a
macrostep and `Reaches.agrees` through runs. What has come to its end stays (`stays_of_ended`).
-/

namespace Statechart

open Relation (ReflTransGen)

namespace Definition

variable {L : Type}

/-- What makes a state complete. -/
inductive Complete (d : Definition L) (config : Configuration) : Nat → Prop
  | final {i : Nat} (hkind : (d.node i).kind = .final) (hactive : i ∈ config) :
      Complete d config i
  | compound {i c : Nat} (hkind : (d.node i).kind = .compound) (hchild : c ∈ (d.node i).children)
      (hfinal : (d.node c).isFinal = true) (hactive : c ∈ config) : Complete d config i
  | parallel {i : Nat} (hkind : (d.node i).kind = .parallel)
      (hregions : ∀ c ∈ (d.node i).children, (d.node c).isHistory = false → Complete d config c) :
      Complete d config i

variable {d : Definition L} {config : Configuration}

theorem Complete.of_finalAt : ∀ {fuel i : Nat}, d.finalAt config fuel i = true →
    d.Complete config i
  | 0, _, h => by cases h
  | fuel + 1, i, h => by
      rw [finalAt] at h
      cases hk : (d.node i).kind with
      | atomic => simp [hk] at h
      | history => simp [hk] at h
      | final =>
          simp only [hk] at h
          exact .final hk h
      | compound =>
          simp only [hk, List.any_eq_true, Bool.and_eq_true] at h
          obtain ⟨c, hchild, hactive, hfinal⟩ := h
          exact .compound hk hchild hfinal hactive
      | parallel =>
          simp only [hk, List.all_eq_true, List.mem_filter, Bool.not_eq_true', and_imp] at h
          exact .parallel hk fun c hc hregion => of_finalAt (h c hc hregion)

/-- The search that decides whether a state is complete goes deep enough. -/
theorem WellFormed.isInFinalState_iff (wf : d.WellFormed) {i : Nat} :
    d.isInFinalState config i = true ↔ d.Complete config i := by
  refine ⟨Complete.of_finalAt, ?_⟩
  intro h
  induction h with
  | @final i hkind hactive =>
      rw [isInFinalState, finalAt]
      simp only [hkind]
      show i ∈ config
      exact hactive
  | compound hkind hchild hfinal hactive =>
      rw [isInFinalState, finalAt]
      simp only [hkind, List.any_eq_true, Bool.and_eq_true]
      exact ⟨_, hchild, hactive, hfinal⟩
  | parallel hkind _ ih => exact (wf.isInFinalState_parallel hkind).mpr ih

end Definition

namespace Machine

open StepM

variable {m : Machine} {w w' : Work} {event : Event}

/-! ## Microsteps -/

/-- How a round ends: without the root complete the machine stays active, and else it is done and
has its output. -/
inductive Concludes (m : Machine) (w w' : Work) : Prop
  | goesOn (hroot : m.definition.isInFinalState w'.snapshot.config Definition.rootIndex = false)
      (hstatus : w'.snapshot.status = .active) (houtput : w'.snapshot.output = w.snapshot.output)
  | ends (hroot : m.definition.isInFinalState w'.snapshot.config Definition.rootIndex = true)
      (hstatus : w'.snapshot.status = .done)
      (houtput : w'.snapshot.output = m.finalOutput w'.snapshot.config)

/-- The output stays. -/
def SameOutput (w w' : Work) : Prop := w'.snapshot.output = w.snapshot.output

theorem Acts.sameOutput (h : m.Acts w w') : SameOutput w w' := by
  cases h <;> rfl

theorem sameOutput_execute {actions : List (Action Logic)} :
    Runs SameOutput (m.execute actions event) :=
  runs_execute.mono fun _ _ => Acts.sameOutput

theorem sameOutput_of_runs {α : Type} {x : StepM α} {a : α} (hx : Runs SameOutput x)
    (h : x w = .ok a w') : SameOutput w w' :=
  hx.keeps (f := fun w => w.snapshot.output) (fun _ _ h => h) h

/-- When the entry pass is over, the root decides. -/
theorem enter_concludes {entering : List Nat} (hactive : w.snapshot.status = .active)
    (h : m.enter event entering w = .ok () w') : m.Concludes w w' := by
  obtain ⟨w₁, hstates, hends⟩ := enter_parts h
  obtain ⟨hstatus, -⟩ := enterStates_enacts hstates
  have houtput : SameOutput w w₁ := sameOutput_of_runs
    (moving_enterStates sameOutput_execute (fun _ _ _ => rfl) (fun _ _ => rfl) fun _ _ => rfl)
    hstates
  rcases hends with ⟨⟨-, hroot⟩, hexits⟩ | ⟨hopen, rfl⟩
  · -- the exit actions of all that is active come after the status is set, and do not touch it
    obtain ⟨hconfig, hstatus', -⟩ := runExits_enacts hexits
    have houtput' := sameOutput_of_runs (moving_runExits sameOutput_execute fun _ _ _ => rfl) hexits
    refine .ends ?_ hstatus' ?_
    · rw [hconfig]
      exact hroot
    · rw [hconfig]
      exact houtput'
  · have hstill : w'.snapshot.status = .active := hstatus.trans hactive
    refine .goesOn ?_ hstill houtput
    apply Bool.eq_false_iff.mpr
    intro hroot
    exact hopen ⟨hstill, hroot⟩

/-- A microstep of an active machine does nothing, or the root decides at its end. -/
theorem microstep_concludes {ts : List Nat} (hactive : w.snapshot.status = .active)
    (h : m.microstep ts event w = .ok () w') : w' = w ∨ m.Concludes w w' := by
  rcases microstep_parts h with ⟨-, rfl⟩ | ⟨w₁, w₂, hexit, hrun, henter⟩
  · exact .inl rfl
  · refine .inr ?_
    obtain ⟨hstatus₁, -⟩ := exitStates_enacts hexit
    have hstatus₂ := runTransitions_status hrun
    have houtput₁ := sameOutput_of_runs
      (moving_exitStates sameOutput_execute (fun _ _ _ => rfl) fun _ _ => rfl) hexit
    have houtput₂ := sameOutput_of_runs
      (moving_runTransitions sameOutput_execute fun _ _ _ => rfl) hrun
    cases enter_concludes (hstatus₂.trans (hstatus₁.trans hactive)) henter with
    | goesOn hroot hstatus houtput =>
        exact .goesOn hroot hstatus (houtput.trans (houtput₂.trans houtput₁))
    | ends hroot hstatus houtput => exact .ends hroot hstatus houtput

/-! ## Macrosteps -/

/-- The status tells whether the root is complete. Steps do not stop machines. -/
structure Agrees (m : Machine) (s : MachineSnapshot) : Prop where
  running : s.status ≠ .stopped
  done_iff : s.status = .done ↔
    m.definition.isInFinalState s.config Definition.rootIndex = true

theorem Concludes.agrees (h : m.Concludes w w') : m.Agrees w'.snapshot := by
  cases h with
  | goesOn hroot hstatus => exact ⟨by simp [hstatus], by simp [hstatus, hroot]⟩
  | ends hroot hstatus => exact ⟨by simp [hstatus], by simp [hstatus, hroot]⟩

theorem microstep_agrees {ts : List Nat} (hactive : w.snapshot.status = .active)
    (hw : m.Agrees w.snapshot) (h : m.microstep ts event w = .ok () w') :
    m.Agrees w'.snapshot := by
  rcases microstep_concludes hactive h with rfl | hends
  · exact hw
  · exact hends.agrees

/-- Without a transition for it, an error ends an active machine whose root is not complete. -/
theorem handle_agrees (hactive : w.snapshot.status = .active) (hw : m.Agrees w.snapshot)
    (h : m.handle event w = .ok () w') : m.Agrees w'.snapshot := by
  obtain ⟨ts, -, ⟨-, -, rfl⟩ | ⟨-, -, rfl⟩ | ⟨-, hstep⟩⟩ := handle_ok h
  · refine ⟨by simp, ?_⟩
    constructor
    · intro hdone
      cases hdone
    · intro hroot
      have hdone := hw.done_iff.mpr hroot
      cases hactive.symm.trans hdone
  · exact hw
  · exact microstep_agrees (w := { w with journal := .handled event ts :: w.journal }) hactive hw
      hstep

theorem Phase.agrees {p p' : Progress} (h : m.Phase p p') (hp : m.Agrees p.work.snapshot) :
    m.Agrees p'.work.snapshot := by
  cases h with
  | @eventless ts _ hactive _ _ hstep =>
      exact microstep_agrees (w := { p.work with journal := .eventless p.last ts :: _ }) hactive hp
        hstep
  | @internal _ rest _ hactive _ _ hhandle =>
      exact handle_agrees (w := { p.work with internal := rest }) hactive hp hhandle
  | external _ hrests hrelease hhandle =>
      obtain ⟨children, rfl⟩ := releaseCompleted_ok hrelease
      exact handle_agrees (w := { p.work with snapshot := { p.work.snapshot with children } })
        hrests.active ⟨hp.running, hp.done_iff⟩ hhandle

theorem settle_agrees {fuel : Nat} {pending : Option Event} {last : Event}
    (hw : m.Agrees w.snapshot) (h : m.settle fuel pending last w = .ok () w') :
    m.Agrees w'.snapshot := by
  obtain ⟨fin, hway, -, rfl⟩ := settle_ends h
  clear h
  induction hway with
  | refl => exact hw
  | tail _ hphase ih => exact hphase.agrees ih

/-! ## Runs -/

/-- A step that goes through leaves status and root in agreement. -/
theorem transition_agrees {scope scope' : Scope} {s s' : MachineSnapshot} (hs : m.Agrees s)
    (h : m.transition scope s event = (scope', .ok s')) : m.Agrees s' := by
  unfold transition at h
  split at h
  · obtain ⟨w, hrun, rfl⟩ := outcome_ok h
    have hw : m.Agrees w.snapshot :=
      settle_agrees (w := begin _ s) ⟨hs.running, hs.done_iff⟩ hrun
    exact ⟨hw.running, hw.done_iff⟩
  · cases h
    exact ⟨hs.running, hs.done_iff⟩

theorem Reaches.agrees {s : MachineSnapshot} (h : m.Reaches s) : m.Agrees s := by
  induction h with
  | initial h =>
      obtain ⟨w, hrun, rfl⟩ := outcome_ok h
      obtain ⟨_, w₁, henter, hsettle⟩ := bind_eq_ok hrun
      have hw := settle_agrees (enter_concludes rfl henter).agrees hsettle
      exact ⟨hw.running, hw.done_iff⟩
  | next _ h ih => exact transition_agrees ih h

/-- A snapshot has another one after some event. -/
def Follows (m : Machine) (s s' : MachineSnapshot) : Prop :=
  ∃ (scope scope' : Scope) (event : Event), m.transition scope s event = (scope', .ok s')

/-- The first snapshot of a machine that can be started. -/
theorem reaches_of_isOk {scope : Scope} {input : Json}
    (hok : (m.initialState scope input).2.isOk = true) :
    m.Reaches ((m.initialState scope input).2.toOption.getD default) :=
  .initial (pair_of_isOk hok)

/-- The snapshot after an event, of a step that goes through. -/
theorem transition_of_isOk {scope : Scope} {s : MachineSnapshot}
    (hok : (m.transition scope s event).2.isOk = true) :
    m.transition scope s event = ((m.transition scope s event).1,
      .ok ((m.transition scope s event).2.toOption.getD default)) :=
  pair_of_isOk hok

theorem Reaches.follows {s s' : MachineSnapshot} (h : m.Reaches s) (hnext : m.Follows s s') :
    m.Reaches s' := by
  obtain ⟨scope, scope', event, hnext⟩ := hnext
  exact .next h hnext

theorem transition_of_ended {s : MachineSnapshot} (hended : s.status ≠ .active) (scope : Scope)
    (event : Event) :
    m.transition scope s event = (scope, .ok { s with changed := false, actions := [] }) := by
  rw [transition, if_neg hended]

/-- Whatever comes after the end is the end again, but for what the last step has done. -/
theorem stays_of_ended {s s' : MachineSnapshot} (hended : s.status ≠ .active)
    (h : ReflTransGen m.Follows s s') : s'.status ≠ .active ∧
      { s' with changed := false, actions := [] } = { s with changed := false, actions := [] } := by
  induction h with
  | refl => exact ⟨hended, rfl⟩
  | tail _ hnext ih =>
      obtain ⟨hstatus, hsame⟩ := ih
      obtain ⟨scope, scope', event, hnext⟩ := hnext
      rw [transition_of_ended hstatus] at hnext
      cases hnext
      exact ⟨hstatus, hsame⟩

/-- However parallel states are nested, a machine is done exactly if its root is complete, and it is
active or has failed exactly if it is not. Once it is no longer active, every event leaves all as it
is and asks for nothing, whatever events have come before it. -/
theorem done_iff_root_complete {s : MachineSnapshot} (h : m.Reaches s) :
    (s.status = .done ↔ m.definition.isInFinalState s.config Definition.rootIndex = true) ∧
    (s.status = .active ∨ s.status = .error ↔
      m.definition.isInFinalState s.config Definition.rootIndex = false) ∧
    (∀ json, Definition.ofJson json = .ok m.definition →
      (s.status = .done ↔ m.definition.Complete s.config Definition.rootIndex)) ∧
    (s.status ≠ .active → ∀ s', ReflTransGen m.Follows s s' → ∀ scope event,
      m.transition scope s' event =
        (scope, .ok { s with changed := false, actions := [] })) := by
  have hagrees := h.agrees
  refine ⟨hagrees.done_iff, ?_, ?_, ?_⟩
  · rw [← Bool.not_eq_true, ← hagrees.done_iff]
    have hrunning := hagrees.running
    cases hstatus : s.status with
    | active => simp
    | done => simp
    | error => simp
    | stopped => exact absurd hstatus hrunning
  · intro json hjson
    rw [hagrees.done_iff]
    exact (Definition.wellFormed_of_ofJson hjson).isInFinalState_iff
  · intro hended s' hs' scope event
    obtain ⟨hended', hsame⟩ := stays_of_ended hended hs'
    rw [transition_of_ended hended', hsame]

/-- A line with a press and a belt, and a log beside it, all of which come to an end. -/
def plantJson : Json :=
  let region (event : String) : Json := .obj [("initial", .str "on"), ("states", .obj
    [("on", .obj [("on", .obj [(event, .str "off")])]), ("off", .obj [("type", .str "final")])])]
  .obj [("id", .str "plant"), ("type", .str "parallel"), ("states", .obj
    [("line", .obj [("type", .str "parallel"), ("states", .obj
        [("press", region "STAMP"), ("belt", region "HALT")])]),
      ("log", region "STAMP")])]

def plant : Machine where
  definition := (Definition.ofJson plantJson).toOption.getD default
  implementations := default
  spawn := default

/-- The plant in its first state. -/
def plantStart : MachineSnapshot := (plant.initialState default .null).2.toOption.getD default

def plantAfter (s : MachineSnapshot) (name : String) : MachineSnapshot :=
  (plant.transition default s (.named name)).2.toOption.getD default

theorem plant_follows {s : MachineSnapshot} {name : String}
    (h : (plant.transition default s (.named name)).2.isOk = true) :
    plant.Follows s (plantAfter s name) :=
  ⟨_, _, _, transition_of_isOk h⟩

/-- The plant goes on while the belt runs. It is done with the last part of the line, and stays
so. -/
theorem plant_done : ∃ s s', plant.Reaches s ∧ s.status = .active ∧
    plant.definition.isInFinalState s.config Definition.rootIndex = false ∧
    plant.Follows s s' ∧ s'.status = .done ∧
    plant.definition.Complete s'.config Definition.rootIndex ∧
    ∀ scope event, plant.transition scope s' event =
      (scope, .ok { s' with changed := false, actions := [] }) := by
  have hjson : (Definition.ofJson (L := Logic) plantJson).isOk = true := by decide +kernel
  have hfirst : (plant.initialState default .null).2.isOk = true := by decide +kernel
  have hstamp : plant.Follows plantStart (plantAfter plantStart "STAMP") :=
    plant_follows (by decide +kernel)
  have hhalt : plant.Follows (plantAfter plantStart "STAMP")
      (plantAfter (plantAfter plantStart "STAMP") "HALT") := plant_follows (by decide +kernel)
  have hactive : (plantAfter plantStart "STAMP").status = .active := by decide +kernel
  have hdone : (plantAfter (plantAfter plantStart "STAMP") "HALT").status = .done := by
    decide +kernel
  have hstart : plant.Reaches plantStart := reaches_of_isOk hfirst
  have hs := hstart.follows hstamp
  have hs' := hs.follows hhalt
  obtain ⟨-, hopen, -, -⟩ := done_iff_root_complete hs
  obtain ⟨-, -, hcomplete, hstays⟩ := done_iff_root_complete hs'
  exact ⟨_, _, hs, hactive, hopen.mp (.inl hactive), hhalt, hdone,
    (hcomplete plantJson (ok_of_isOk hjson)).mp hdone, hstays (by simp [hdone]) _ .refl⟩

end Machine

end Statechart
