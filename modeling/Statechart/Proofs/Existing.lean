import Mathlib.Data.Nat.Basic
import Statechart.Entry
import Statechart.Proofs.SortedMap
import Statechart.Proofs.Tree

/-!
# Positions that exist

Entering states leads to states of the definition only (`existing_entrySet`), if what is remembered
consists of such, and so does what is recorded (`known_recordHistory`).
-/

namespace Statechart.Definition

variable {L : Type} (d : Definition L)

/-- A set of states of the definition. -/
def Existing (config : Configuration) : Prop := ∀ i ∈ config, i < d.nodes.size

/-- Everything that is remembered is about states of the definition. -/
def Known (history : HistoryValue) : Prop :=
  ∀ e ∈ history, e.1 < d.nodes.size ∧ ∀ x ∈ e.2, x < d.nodes.size

variable {d} {config entry : Configuration} {history : HistoryValue}

theorem existing_empty : d.Existing .empty := fun i hi => absurd hi (NodeSet.not_mem_empty i)

theorem Existing.insert (h : d.Existing config) {i : Nat} (hi : i < d.nodes.size) :
    d.Existing (config.insert i) := by
  intro j hj
  rcases (NodeSet.mem_insert _ _ _).mp hj with rfl | hj
  · exact hi
  · exact h j hj

theorem Existing.erase (h : d.Existing config) (i : Nat) : d.Existing (config.erase i) :=
  fun j hj => h j ((NodeSet.mem_erase _ _ _).mp hj).2

theorem known_nil : d.Known [] := by simp [Known]

theorem Known.insert (h : d.Known history) {i : Nat} {xs : List Nat} (hi : i < d.nodes.size)
    (hxs : ∀ x ∈ xs, x < d.nodes.size) : d.Known (SortedMap.insert i xs history) := by
  intro e he
  rcases SortedMap.mem_insert he with rfl | he
  · exact ⟨hi, hxs⟩
  · exact h e he

/-- A function that adds states below the states that it is given. -/
def Adds (d : Definition L) (enter : Configuration → Nat → Configuration) : Prop :=
  ∀ entry state, state < d.nodes.size → d.Existing entry → d.Existing (enter entry state)

theorem existing_foldl {enter : Configuration → Nat → Configuration} (henter : d.Adds enter)
    {xs : List Nat} (hxs : ∀ x ∈ xs, x < d.nodes.size) (h : d.Existing entry) :
    d.Existing (xs.foldl enter entry) :=
  List.foldlRecOn xs enter h fun entry h x hx => henter entry x (hxs x hx) h

namespace WellFormed

variable (wf : d.WellFormed) {enter : Configuration → Nat → Configuration}
include wf

/-! ## Entering -/

theorem adds_fillRegions (henter : d.Adds enter) : d.Adds (d.fillRegions enter) := by
  intro entry state _ h
  refine existing_foldl (fun entry region hregion h => ?_) (fun c hc => wf.child_lt hc) h
  split
  · exact h
  · exact henter entry region hregion h

theorem adds_addPassed (henter : d.Adds enter) : d.Adds (d.addPassed enter) := by
  intro entry state hstate h
  unfold addPassed
  simp only
  split
  · exact wf.adds_fillRegions henter _ state hstate (h.insert hstate)
  · exact h.insert hstate

theorem adds_addAbove (henter : d.Adds enter) (top : Option Nat) :
    d.Adds (d.addAbove enter top) := by
  intro entry state hstate h
  have hpassed : d.Existing ((d.properAncestors state top).foldl (d.addPassed enter) entry) := by
    refine existing_foldl (wf.adds_addPassed henter) (fun a ha => ?_) h
    have := wf.below_bounds ((wf.mem_properAncestors top).mp ha).1
    omega
  unfold addAbove
  simp only
  split
  · rename_i a
    split
    · refine existing_foldl (fun entry region hregion h => ?_) (fun c hc => wf.child_lt hc)
        hpassed
      split
      · exact h
      · exact henter entry region hregion h
    · exact hpassed
  · exact hpassed

theorem historyTargets_lt (hhist : d.Known history) (state : Nat) :
    ∀ x ∈ d.historyTargets history state, x < d.nodes.size := by
  intro x hx
  rw [historyTargets] at hx
  cases hfind : SortedMap.find? state history with
  | some xs =>
      rw [hfind] at hx
      exact (hhist _ (SortedMap.mem_of_find? hfind)).2 x hx
  | none =>
      rw [hfind, Option.getD_none, historyDefaults] at hx
      -- a declared default, or what the parent enters by default
      cases hdefault : (d.node state).historyDefault with
      | cons y ys =>
          simp only [hdefault] at hx
          exact wf.historyDefault_lt state x (hdefault ▸ hx)
      | nil =>
          cases hparent : (d.node state).parent with
          | none =>
              simp only [hdefault, hparent] at hx
              cases hx
          | some p =>
              simp only [hdefault, hparent] at hx
              split at hx
              · exact wf.child_lt (List.mem_filter.mp hx).1
              · have hchild := wf.mem_children.mpr hparent
                have hp := Nat.lt_trans (wf.lt_of_below (wf.child_below hchild))
                  (wf.child_lt hchild)
                rcases wf.kind_of_child hchild with hk | hk
                · obtain ⟨c, hc, hinitial, -⟩ := wf.initial p hp hk
                  rw [hinitial, Option.toList_some, List.mem_singleton] at hx
                  exact hx ▸ wf.child_lt hc
                · rw [wf.initial_none p (by rw [hk]; decide)] at hx
                  cases hx

theorem adds_addState (hhist : d.Known history) :
    ∀ fuel, d.Adds (d.addState history fuel)
  | 0 => fun _ _ _ h => h
  | fuel + 1 => by
      intro entry state hstate h
      have henter := adds_addState hhist fuel
      unfold addState
      simp only
      split
      · have htargets := wf.historyTargets_lt hhist state
        exact existing_foldl (wf.adds_addAbove henter _) htargets
          (existing_foldl henter htargets h)
      · rename_i hk
        obtain ⟨c, hc, hinitial, -⟩ := wf.initial state hstate hk
        rw [hinitial]
        exact wf.adds_addAbove henter _ _ c (wf.child_lt hc)
          (henter _ c (wf.child_lt hc) (h.insert hstate))
      · exact wf.adds_fillRegions henter _ state hstate (h.insert hstate)
      · exact h.insert hstate

theorem existing_initialEntrySet : d.Existing d.initialEntrySet :=
  wf.adds_addState known_nil _ _ _ wf.size_pos existing_empty

/-! ## Transitions -/

theorem addTarget_lt (hhist : d.Known history) : ∀ {fuel state : Nat} {out : List Nat},
    state < d.nodes.size → (∀ x ∈ out, x < d.nodes.size) →
      ∀ x ∈ d.addTarget history fuel out state, x < d.nodes.size
  | 0, _, _, _, hout => hout
  | fuel + 1, state, out, hstate, hout => by
      have hnew : ∀ {out : List Nat} {y : Nat}, y < d.nodes.size → (∀ x ∈ out, x < d.nodes.size) →
          ∀ x ∈ addNew out y, x < d.nodes.size := by
        intro out y hy hout x hx
        unfold addNew at hx
        split at hx
        · exact hout x hx
        · rcases List.mem_append.mp hx with hx | hx
          · exact hout x hx
          · exact List.mem_singleton.mp hx ▸ hy
      have htargets := wf.historyTargets_lt hhist state
      unfold historyTargets at htargets
      unfold addTarget
      split
      · split
        · rename_i xs hfind
          rw [hfind] at htargets
          exact List.foldlRecOn (motive := fun out => ∀ x ∈ out, x < d.nodes.size) xs addNew hout
            fun _ h y hy => hnew (htargets y hy) h
        · rename_i hfind
          rw [hfind] at htargets
          exact List.foldlRecOn (motive := fun out => ∀ x ∈ out, x < d.nodes.size) _ _ hout
            fun _ h y hy => addTarget_lt hhist (htargets y hy) h
      · exact hnew hstate hout

theorem effectiveTargets_lt (hhist : d.Known history) {t : Transition L}
    (ht : ∀ x ∈ t.targets, x < d.nodes.size) :
    ∀ x ∈ d.effectiveTargets history t, x < d.nodes.size :=
  List.foldlRecOn (motive := fun out => ∀ x ∈ out, x < d.nodes.size) t.targets _ (by simp)
    fun _ h y hy => wf.addTarget_lt hhist (ht y hy) h

/-- Transitions enter states of the definition. -/
theorem existing_entrySet (hhist : d.Known history) {ts : List (Transition L)}
    (hts : ∀ t ∈ ts, ∀ x ∈ t.targets, x < d.nodes.size) : d.Existing (d.entrySet history ts) := by
  refine List.foldlRecOn ts _ existing_empty fun entry h t ht => ?_
  unfold addEntered
  split
  · exact h
  · exact existing_foldl (wf.adds_addAbove (wf.adds_addState hhist _) _)
      (wf.effectiveTargets_lt hhist (hts t ht))
      (existing_foldl (wf.adds_addState hhist _) (hts t ht) h)

theorem targets_lt (t : Nat) : ∀ x ∈ (d.transition t).targets, x < d.nodes.size := by
  by_cases ht : t < d.transitions.size
  · exact wf.target_lt t ht
  · intro x hx
    rw [transition, Array.getElem?_eq_none (Nat.not_lt.mp ht)] at hx
    cases hx

/-! ## Remembering -/

theorem known_recordHistory (hconfig : d.Existing config) (hhist : d.Known history)
    (exiting : List Nat) : d.Known (d.recordHistory config exiting history) := by
  refine List.foldlRecOn exiting _ hhist fun history hhist state _ => ?_
  refine List.foldlRecOn _ _ hhist fun history hhist c hc => ?_
  split
  · rename_i kind _
    refine hhist.insert (wf.child_lt hc) fun x hx => ?_
    cases kind with
    | deep => exact hconfig x ((NodeSet.mem_toList _ _).mp (List.mem_filter.mp hx).1)
    | shallow => exact wf.child_lt (List.mem_filter.mp hx).1
  · exact hhist

end WellFormed

/-- Recording keeps the order of what is remembered. -/
theorem sorted_recordHistory (h : SortedMap.Sorted history) (exiting : List Nat) :
    SortedMap.Sorted (d.recordHistory config exiting history) := by
  refine List.foldlRecOn exiting _ h fun history h state _ => ?_
  refine List.foldlRecOn _ _ h fun history h c _ => ?_
  split
  · exact h.insert c _
  · exact h

end Statechart.Definition
