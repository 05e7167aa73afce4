import Statechart.Proofs.Offspring
import Statechart.Proofs.Runs

/-!
# Reports that a machine takes

A macrostep takes its external event once nothing else is left to do (`Machine.Meets`). Until then a
child only leaves when the step stops it or puts another actor in its place (`Meets.child`). A child
whose end the event reports has left when the step is over (`Machine.transition_releases`).
-/

namespace Statechart

/-- What holds in a step of a machine that runs for an actor, before it takes an external event or
after. `old` are the children at the beginning. -/
structure Work.Tracked (w : Work) (m : Machine) (sys : System) (p : Session)
    (old : List (String × Session)) : Prop where
  thrives : sys.Thrives w.scope.system
  suits : w.Suits m (some p)
  tracks : w.Tracks sys p none old

namespace Machine

open StepM

/-- The rounds of a macrostep up to the state in which it takes its external event. -/
inductive Meets (m : Machine) : Event → Work → Work → Prop
  | here {last : Event} {w : Work} (h : m.Rests last w) : Meets m last w w
  | eventless {last : Event} {ts : List Nat} {w w₁ w' : Work}
      (hselect : m.definition.selectEventless (m.situation w.snapshot) last = .ok ts)
      (hstep : m.microstep ts last { w with journal := .eventless last ts :: w.journal } = .ok () w₁)
      (h : Meets m last w₁ w') : Meets m last w w'
  | internal {last next : Event} {queued : List Event} {w w₁ w' : Work}
      (hnext : w.internal = next :: queued)
      (hhandle : m.handle next { w with internal := queued } = .ok () w₁)
      (h : Meets m next w₁ w') : Meets m last w w'

variable {m : Machine} {sys : System} {p c : Session} {old : List (String × Session)} {w w' : Work}
  {last event : Event} {id : String}

/-- A macrostep that leaves its machine active has taken the event. -/
theorem settle_takes {fuel : Nat} (h : m.settle fuel (some event) last w = .ok () w')
    (hactive : w'.snapshot.status = .active) : ∃ w₁ w₂ w₃ left, m.Meets last w w₁ ∧
      releaseCompleted event w₁ = .ok () w₂ ∧ m.handle event w₂ = .ok () w₃ ∧
        m.settle left none event w₃ = .ok () w' := by
  -- Eventless transitions and internal events come first. Only a machine that is no longer
  -- active stops before the event.
  induction fuel generalizing last w with
  | zero =>
      obtain ⟨_, _, -, h⟩ := bind_eq_ok h
      cases h
  | succ fuel ih =>
      rcases settle_ok h with ⟨rfl, hstatus | ⟨hnone, -⟩⟩ | ⟨ts, w₁, hselect, hstep, h⟩ |
        ⟨next, queued, w₁, hinternal, hhandle, h⟩ | ⟨_, w₁, w₂, hsome, hrests, hrelease, hhandle, h⟩
      · exact absurd hactive hstatus
      · cases hnone
      · obtain ⟨w₂, w₃, w₄, left, hmeets, htakes⟩ := ih h
        exact ⟨w₂, w₃, w₄, left, .eventless hselect hstep hmeets, htakes⟩
      · obtain ⟨w₂, w₃, w₄, left, hmeets, htakes⟩ := ih h
        exact ⟨w₂, w₃, w₄, left, .internal hinternal hhandle hmeets, htakes⟩
      · cases hsome
        exact ⟨w, w₁, w₂, fuel, .here hrests, hrelease, hhandle, h⟩

theorem Proceeds.tracked (hspawn : Spawner.Sound m.spawn) (h : m.Proceeds none w w')
    (hw : w.Tracked m sys p old) : w'.Tracked m sys p old :=
  ⟨h.thrives hspawn hw.thrives, h.suits hspawn hw.thrives.sound hw.suits,
    h.tracks hspawn hw.thrives hw.suits.offspring.sorted hw.tracks⟩

theorem tracked_ok {x : StepM Unit} (hx : Runs (m.Proceeds none) x)
    (hspawn : Spawner.Sound m.spawn) (hw : w.Tracked m sys p old) (h : x w = .ok () w') :
    w'.Tracked m sys p old := by
  have hafter := hx.runsFrom (p := fun w => w.Tracked m sys p old)
    (fun _ _ h hw => h.tracked hspawn hw) w hw
  rw [after_of_ok h] at hafter
  exact hafter.2

theorem Meets.tracked (hspawn : Spawner.Sound m.spawn) (h : m.Meets last w w')
    (hw : w.Tracked m sys p old) : w'.Tracked m sys p old := by
  induction h with
  | here => exact hw
  | eventless _ hstep _ ih =>
      exact ih (tracked_ok proceeds_microstep hspawn
        (Proceeds.tracked hspawn (.acted (.marked _ _)) hw) hstep)
  | internal hnext hhandle _ ih =>
      exact ih (tracked_ok proceeds_handle hspawn
        (Proceeds.tracked hspawn (.took _ _ _ hnext) hw) hhandle)

/-- A step begins with all its children. -/
theorem tracked_begin {scope : Scope} {s : MachineSnapshot} (hsound : scope.system.Sound)
    (hsession : scope.session = p) (hscope : scope.Belongs (some p))
    (hs : s.Suits scope.system (some p) m.definition m.implementations) :
    (begin { scope with system := scope.system.pinning (s.children.map Prod.snd) } s).Tracked m
      scope.system p s.children := by
  have hquiet := quiet_pinning scope.system (s.children.map Prod.snd)
  exact ⟨hsound.thrives.quiet hquiet, ⟨hs.definition, hs.sorted, hs.existing,
    hs.offspring.mono hquiet.follows, hscope⟩,
    ⟨(Lineage.refl _ _ _ _ _).mono hquiet.follows (List.Subset.refl _), hsession⟩⟩

/-- When the external event is taken, a child is still registered, unless the step has stopped it or
put another actor in its place. -/
theorem Meets.child {scope : Scope} {s : MachineSnapshot} (hspawn : Spawner.Sound m.spawn)
    (hsound : scope.system.Sound) (hsession : scope.session = p) (hscope : scope.Belongs (some p))
    (hs : s.Suits scope.system (some p) m.definition m.implementations)
    (h : m.Meets last
      (begin { scope with system := scope.system.pinning (s.children.map Prod.snd) } s) w)
    (hc : (id, c) ∈ s.children) : w.snapshot.child? id = some c ∨ .stop c ∈ w.scope.effects ∨
      scope.system.Replaces w.scope.system p id := by
  have hw := h.tracked hspawn (tracked_begin hsound hsession hscope hs)
  rcases hw.tracks.lineage.kept _ hc with hnow | hstop | ⟨_, hnone, -⟩ | hreplaced
  · exact .inl ((hw.suits.offspring.sorted.find?_eq_some).mpr hnow)
  · exact .inr (.inl hstop)
  · cases hnone
  · exact .inr (.inr hreplaced)

/-- To take the report of a child's end lets it go. -/
theorem released (hrelease : releaseCompleted event w = .ok () w')
    (hsorted : SortedMap.Sorted w.snapshot.children) (hid : event.completedChild? = some id)
    (horigin : event.origin = some c.text) (hown : ∀ k, (k, c) ∈ w.snapshot.children → k = id) :
    ∀ k, (k, c) ∉ w'.snapshot.children := by
  intro k hk
  cases hrelease
  simp only [hid] at hk
  cases hchild : w.snapshot.child? id with
  | none =>
      simp only [hchild] at hk
      have hfound := hsorted.find?_eq_some.mpr (hown k hk ▸ hk)
      rw [MachineSnapshot.child?, hfound] at hchild
      cases hchild
  | some child =>
      simp only [hchild] at hk
      split at hk
      · obtain ⟨hold, hne⟩ := SortedMap.mem_erase.mp hk
        exact hne (hown k hold)
      · rename_i hother
        have hfound := hsorted.find?_eq_some.mpr (hown k hk ▸ hk)
        rw [MachineSnapshot.child?, hfound] at hchild
        cases hchild
        exact hother horigin

/-- What follows the release begins with the children that are left. -/
theorem tracked_release (hspawn : Spawner.Sound m.spawn) (hw : w.Tracked m sys p old)
    (h : releaseCompleted event w = .ok () w') :
    w'.Tracked m sys p w'.snapshot.children := by
  have hruns : Runs (m.Proceeds (some event)) (releaseCompleted event) := proceeds_releaseCompleted
  have hafter := (hruns.runsFrom
    (p := fun w => sys.Thrives w.scope.system ∧ w.Suits m (some p) ∧ w.scope.session = p)
    (fun _ _ h hw => ⟨h.thrives hspawn hw.1, h.suits hspawn hw.1.sound hw.2.1,
      h.session.trans hw.2.2⟩) w ⟨hw.thrives, hw.suits, hw.tracks.session⟩).2
  rw [after_of_ok h] at hafter
  obtain ⟨hthrives, hsuits, hsession⟩ := hafter
  refine ⟨hthrives, hsuits, ⟨?_, hsession⟩⟩
  exact (Lineage.refl sys p [] none _).mono hthrives.grown.follows (List.nil_subset _)

/-- A machine that takes the report of a child's end, and is still active then, no longer has the
child. -/
theorem transition_releases {scope scope' : Scope} {s next : MachineSnapshot}
    (h : m.transition scope s event = (scope', .ok next)) (hspawn : Spawner.Sound m.spawn)
    (hsound : scope.system.Sound) (hsession : scope.session = p) (hscope : scope.Belongs (some p))
    (hs : s.Suits scope.system (some p) m.definition m.implementations)
    (hactive : s.status = .active) (hnext : next.status = .active)
    (hid : event.completedChild? = some id) (horigin : event.origin = some c.text)
    (hold : c.number < scope.system.nextSession) (hown : ∀ k, (k, c) ∈ s.children → k = id) :
    ∀ k, (k, c) ∉ next.children := by
  rw [transition, if_pos hactive] at h
  obtain ⟨w', hrun, rfl⟩ := outcome_ok h
  obtain ⟨w₁, w₂, w₃, left, hmeets, hrelease, hhandle, hsettle⟩ := settle_takes hrun hnext
  have hw₁ := hmeets.tracked hspawn (tracked_begin hsound hsession hscope hs)
  have hsorted := hw₁.suits.offspring.sorted
  have hgone := released hrelease hsorted hid horigin fun k hk =>
    (hw₁.tracks.lineage.added _ hk).elim (hown k) fun hlate => absurd hold (Nat.not_lt.mpr hlate)
  -- what comes after the event has been taken begins with the children that are left
  have hw₂ := tracked_release hspawn hw₁ hrelease
  have hw' := tracked_ok (proceeds_settle (by simp)) hspawn
    (tracked_ok proceeds_handle hspawn hw₂ hhandle) hsettle
  intro k hk
  rcases hw'.tracks.lineage.added (k, c) hk with hbefore | hlate
  · exact hgone k hbefore
  · exact absurd hold (Nat.not_lt.mpr hlate)

end Machine

end Statechart
