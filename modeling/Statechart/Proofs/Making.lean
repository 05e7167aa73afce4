import Statechart.Proofs.Spawning

/-!
# What making actors leaves alone

All that behaviours do to a system is to make actors, to give notice and to change who is pinned for
a while. A relation between systems that is kept by each of these (`System.Carried`) holds between
the systems before and after whatever a behaviour does, to any depth at which it makes actors that
make actors (`spawn_carries`, `Logic.transition_carries`).
-/

namespace Statechart

/-- A relation between systems that is kept when actors are made and notices given. -/
structure System.Carried (R : System → System → Prop) : Prop where
  refl : ∀ sys, R sys sys
  trans : ∀ {sys sys' sys''}, R sys sys' → R sys' sys'' → R sys sys''
  pins : ∀ (sys : System) pins, R sys { sys with pins }
  record : ∀ sys r, R sys (sys.record r)
  newSession : ∀ sys, R sys sys.newSession.1
  register : ∀ sys a, R sys (sys.register a)

/-- A way to make actors that keeps a relation. -/
def Spawner.Carries (spawn : Spawner) (R : System → System → Prop) : Prop :=
  ∀ (sys : System) (logic : Logic) (spec : ActorSpec), R sys (spawn sys logic spec).1

section

variable {R : System → System → Prop} (hR : System.Carried R)
include hR

namespace System.Carried

theorem note (sys : System) (n : Notice) : R sys (sys.note n) := hR.record sys _

theorem report (lines : List Json) : ∀ sys : System, R sys (sys.report lines) := by
  induction lines with
  | nil => exact hR.refl
  | cons line rest ih => exact fun sys => hR.trans (hR.record sys _) (ih _)

/-- Actors are made while others are pinned. -/
theorem spawned {spawn : Spawner} (hspawn : spawn.Carries R) (sys : System)
    (sessions : List Session) (logic : Logic) (spec : ActorSpec) :
    R sys { (spawn (sys.pinning sessions) logic spec).1 with pins := sys.pins } :=
  hR.trans (hR.trans (hR.pins sys _) (hspawn _ logic spec)) (hR.pins _ _)

end System.Carried

/-! ## Machines -/

namespace Machine

open StepM

variable {m : Machine} {scope : Scope} {s : MachineSnapshot} {w w' : Work}
  {external : Option Event}

theorem Acts.carries (hspawn : m.spawn.Carries R) (h : m.Acts w w') :
    R w.scope.system w'.scope.system := by
  have hmade : ∀ {logic : Logic} {spec : ActorSpec} {system : System}
      {result : Except ActorError Session}, m.spawn w.system logic spec = (system, result) →
        R w.scope.system { system with pins := w.scope.system.pins } := by
    intro logic spec system result hmade
    have hspawned := hR.spawned hspawn w.scope.system w.keeps logic spec
    rwa [show m.spawn (w.scope.system.pinning w.keeps) logic spec = _ from hmade] at hspawned
  cases h with
  | noted n => exact hR.note _ n
  | spawned logic spec system child _ _ _ h => exact hmade h
  | spawnFailed logic spec system e _ _ h => exact hmade h
  | _ => exact hR.refl _

theorem Proceeds.carries (hspawn : m.spawn.Carries R) (h : m.Proceeds external w w') :
    R w.scope.system w'.scope.system := by
  cases h with
  | acted h => exact h.carries hR hspawn
  | _ => exact hR.refl _

/-- A step keeps the relation, abandoned or not. -/
theorem outcome_carries {pins : List Session} {before : Option MachineSnapshot} {x : StepM Unit}
    (hx : Runs (m.Proceeds external) x) (hspawn : m.spawn.Carries R) :
    R scope.system (outcome pins before (runStep scope s x)).1.system := by
  have hall := hx.runsFrom (p := fun w' => R scope.system w'.scope.system)
    fun w₁ w₂ h hbefore => hR.trans hbefore (h.carries hR hspawn)
  have hafter := (hall (begin { scope with
    system := scope.system.pinning (s.children.map Prod.snd) } s) (hR.pins _ _)).2
  rw [StepM.after] at hafter
  cases hrun : runStep scope s x <;>
  · rw [show x _ = _ from hrun] at hafter
    exact hR.trans hafter (hR.pins _ _)

theorem initialState_carries (hspawn : m.spawn.Carries R) (scope : Scope) (input : Json) :
    R scope.system (m.initialState scope input).1.system := outcome_carries hR runs_initial hspawn

theorem transition_carries (hspawn : m.spawn.Carries R) (scope : Scope) (s : MachineSnapshot)
    (event : Event) : R scope.system (m.transition scope s event).1.system := by
  unfold transition
  split
  · exact outcome_carries hR (runs_macrostep (m := m)) hspawn
  · exact hR.refl _

theorem stop_carries (hspawn : m.spawn.Carries R) (scope : Scope) (s : MachineSnapshot) :
    R scope.system (m.stop scope s).1.system := by
  have hrun : R scope.system (outcome scope.system.pins (some s) (m.stopRun scope s)).1.system :=
    outcome_carries hR runs_stop hspawn
  cases hstop : m.stop scope s with
  | mk scope' result =>
      rcases stop_cases hstop with ⟨-, rfl, -⟩ | ⟨e, heq, -⟩ | ⟨scope₁, s₁, heq, rfl, -⟩
      · exact hR.refl _
      · rwa [heq] at hrun
      · rw [heq] at hrun
        exact hrun

theorem restoreChildren_carries (hspawn : m.spawn.Carries R)
    (stored : List (String × PersistedChild PersistedSnapshot)) :
    ∀ (scope : Scope) (made : List (String × Session)),
      R scope.system (m.restoreChildren scope made stored).1.system := by
  -- children whose source is unknown are passed over with a notice, the others are made
  induction stored with
  | nil => exact fun scope _ => hR.refl _
  | cons child rest ih =>
      intro scope made
      obtain ⟨id, child⟩ := child
      by_cases hskip : ∀ key, child.source = some key → m.implementations.actors key = none
      · obtain ⟨n, heq⟩ := restoreChildren_skip id hskip scope made rest
        rw [heq]
        exact hR.trans (hR.note scope.system n)
          (ih { scope with system := scope.system.note n } made)
      · push Not at hskip
        obtain ⟨source, hsource, hknown⟩ := hskip
        obtain ⟨logic, hlogic⟩ := Option.ne_none_iff_exists'.mp hknown
        obtain ⟨keeps, heq⟩ := restoreChildren_make id hsource hlogic scope made rest
        have hnow := hR.spawned hspawn scope.system keeps logic
          (restoredSpec scope id source child)
        rw [heq]
        split <;> rename_i hchild <;> rw [hchild] at hnow
        · exact hnow
        · rename_i system session
          exact hR.trans hnow (ih
            { scope with
              system := { system with pins := scope.system.pins }
              effects := scope.effects ++ [.start session] } (SortedMap.insert id session made))

theorem restore_carries (hspawn : m.spawn.Carries R) (scope : Scope)
    (stored : PersistedSnapshot) : R scope.system (m.restore scope stored).1.system := by
  have hchecked : R scope.system (m.checkOrigin stored scope.system) := by
    unfold checkOrigin
    split
    · exact hR.refl _
    · split
      · exact hR.refl _
      · exact hR.note _ _
  unfold restore
  simp only
  split
  · exact hchecked
  · have hchildren := restoreChildren_carries hR hspawn stored.children
      { scope with system := m.checkOrigin stored scope.system } []
    split <;> rename_i heq <;> rw [heq] at hchildren <;> exact hR.trans hchecked hchildren

end Machine

/-! ## All kinds of behaviour -/

variable {spawn : Spawner}

theorem Scope.absorb_carries {α : Type} (scope : Scope) (o : Outcome α) :
    R scope.system (scope.absorb o).system := hR.report _ _

theorem Logic.initialSnapshot_carries (hspawn : spawn.Carries R) (scope : Scope)
    (input : Json) (logic : Logic) :
    R scope.system (logic.initialSnapshot spawn scope input).1.system := by
  cases logic with
  | machine d implementations =>
      exact Machine.initialState_carries hR (m := { definition := d, implementations, spawn })
        hspawn scope input
  | _ => exact hR.refl _

theorem Logic.restore_carries (hspawn : spawn.Carries R) (scope : Scope)
    (stored : PersistedSnapshot) (logic : Logic) :
    R scope.system (logic.restore spawn scope stored).1.system := by
  cases logic with
  | machine d implementations =>
      exact Machine.restore_carries hR (m := { definition := d, implementations, spawn }) hspawn
        scope stored
  | _ => exact hR.refl _

theorem Logic.start_carries (scope : Scope) (s : Snapshot) (logic : Logic) :
    R scope.system (logic.start scope s).1.system := by
  cases logic with
  | task run =>
      unfold start
      simp only
      split
      · exact hR.refl _
      · split
        · exact Scope.absorb_carries hR scope _
        · exact hR.refl _
  | _ => exact hR.refl _

theorem Logic.transition_carries (hspawn : spawn.Carries R) (scope : Scope) (s : Snapshot)
    (event : Event) (logic : Logic) :
    R scope.system (logic.transition spawn scope s event).1.system := by
  cases logic with
  | machine d implementations =>
      cases s with
      | machine current =>
          exact Machine.transition_carries hR (m := { definition := d, implementations, spawn })
            hspawn scope current event
      | value v => exact hR.refl _
  | reducer initial next =>
      unfold transition
      simp only
      split
      · exact hR.refl _
      · split
        · exact Scope.absorb_carries hR scope _
        · exact hR.refl _
  | task run => exact hR.refl _

theorem Logic.stop_carries (hspawn : spawn.Carries R) (scope : Scope) (s : Snapshot)
    (logic : Logic) : R scope.system (logic.stop spawn scope s).1.system := by
  cases logic with
  | machine d implementations =>
      cases s with
      | machine current =>
          exact Machine.stop_carries hR (m := { definition := d, implementations, spawn }) hspawn
            scope current
      | value v => exact hR.refl _
  | _ => exact hR.refl _

/-! ## Making -/

theorem make_carries : ∀ depth, (make depth).Carries R
  | 0 => fun _ _ _ => hR.refl _
  | depth + 1 => by
      intro sys logic spec
      have hfirst : R sys (spec.first (make depth) (spec.scope sys) logic).1.system := by
        have hscope : R sys (spec.scope sys).system := hR.newSession sys
        refine hR.trans hscope ?_
        unfold ActorSpec.first
        split
        · exact Logic.restore_carries hR (make_carries depth) _ _ _
        · exact Logic.initialSnapshot_carries hR (make_carries depth) _ _ _
      cases hmade : spec.first (make depth) (spec.scope sys) logic with
      | mk scope result =>
          rw [hmade] at hfirst
          cases result with
          | error e =>
              rw [make_error hmade]
              exact hfirst
          | ok snapshot =>
              rw [make_ok hmade]
              exact hR.trans hfirst (hR.register _ _)

/-- To make an actor keeps the relation. -/
theorem spawn_carries : Spawner.Carries Statechart.spawn R := fun _ _ _ => make_carries hR _ _ _ _

end

end Statechart
