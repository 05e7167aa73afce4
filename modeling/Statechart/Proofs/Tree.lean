import Mathlib.Data.List.Basic
import Statechart.Definition.Basic

/-!
# The tree of states

`Definition.WellFormed` says what a built definition can be relied on for: its states stand in
document order, parents and children agree, every subtree is an interval of positions, and every
position that is stored somewhere exists. From it follows how states lie to each other. `Below` is
the order of the tree: the states above one state form a chain (`WellFormed.below_total`), and two
children of one state have nothing below them in common (`WellFormed.child_unique`).
-/

namespace Statechart.Definition

variable {L : Type}

/-- What every built definition satisfies. -/
structure WellFormed (d : Definition L) : Prop where
  size_pos : 0 < d.nodes.size
  index_eq : ∀ i < d.nodes.size, (d.node i).index = i
  parent_zero : (d.node 0).parent = none
  parent_pos : ∀ i < d.nodes.size, 0 < i → ∃ p, (d.node i).parent = some p ∧ p < i
  subtreeEnd : ∀ i < d.nodes.size,
    i < (d.node i).subtreeEnd ∧ (d.node i).subtreeEnd ≤ d.nodes.size
  subtree : ∀ i < d.nodes.size, ∀ j < d.nodes.size, i < j →
    (j < (d.node i).subtreeEnd ↔
      ∃ p, (d.node j).parent = some p ∧ i ≤ p ∧ p < (d.node i).subtreeEnd)
  children_iff : ∀ i < d.nodes.size, ∀ c,
    c ∈ (d.node i).children ↔ c < d.nodes.size ∧ (d.node c).parent = some i
  children_sorted : ∀ i < d.nodes.size, (d.node i).children.Pairwise (· < ·)
  children_key : ∀ i < d.nodes.size, ∀ c ∈ (d.node i).children, ∀ c' ∈ (d.node i).children,
    (d.node c).key = (d.node c').key → c = c'
  children_ne_nil : ∀ i < d.nodes.size,
    (d.node i).children ≠ [] ↔ (d.node i).kind = .compound ∨ (d.node i).kind = .parallel
  initial : ∀ i < d.nodes.size, (d.node i).kind = .compound →
    ∃ c ∈ (d.node i).children, (d.node i).initial = some c ∧ (d.node c).isHistory = false
  initial_none : ∀ i, (d.node i).kind ≠ .compound → (d.node i).initial = none
  root_kind : (d.node 0).kind ≠ .history ∧ (d.node 0).kind ≠ .final
  history_isSome : ∀ i, (d.node i).history.isSome = (d.node i).isHistory
  historyDefault_lt : ∀ i, ∀ x ∈ (d.node i).historyDefault, x < d.nodes.size
  id_inj : ∀ i < d.nodes.size, ∀ j < d.nodes.size, (d.node i).id = (d.node j).id → i = j
  mem_transitions : ∀ i < d.nodes.size, ∀ t,
    t ∈ (d.node i).transitions ↔ t < d.transitions.size ∧ (d.transition t).source = i
  transition_index : ∀ t < d.transitions.size, (d.transition t).index = t
  source_lt : ∀ t < d.transitions.size, (d.transition t).source < d.nodes.size
  target_lt : ∀ t < d.transitions.size, ∀ x ∈ (d.transition t).targets, x < d.nodes.size
  forbidden_targets : ∀ t < d.transitions.size,
    (d.transition t).forbidden = true → (d.transition t).targets = []

/-- One state lies properly below another. -/
def Below (d : Definition L) (j i : Nat) : Prop := d.isDescendant j i = true

/-- A state is another one or lies below it. -/
def Within (d : Definition L) (j i : Nat) : Prop := j = i ∨ d.Below j i

variable {d : Definition L}

instance (j i : Nat) : Decidable (d.Below j i) := inferInstanceAs (Decidable (_ = true))

instance (j i : Nat) : Decidable (d.Within j i) := inferInstanceAs (Decidable (_ ∨ _))

@[simp] theorem isDescendant_iff {j i : Nat} : d.isDescendant j i = true ↔ d.Below j i := Iff.rfl

@[simp] theorem Within.refl (i : Nat) : d.Within i i := .inl rfl

theorem Below.within {j i : Nat} (h : d.Below j i) : d.Within j i := .inr h

theorem node_of_size_le {i : Nat} (h : d.nodes.size ≤ i) : d.node i = default := by
  unfold node
  rw [Array.getElem?_eq_none h]
  rfl

namespace WellFormed

variable (wf : d.WellFormed)
include wf

/-! ## The order of the tree -/

theorem below_iff {j i : Nat} (hi : i < d.nodes.size) :
    d.Below j i ↔ i < j ∧ j < (d.node i).subtreeEnd := by
  simp only [Below, isDescendant, StateNode.contains, wf.index_eq i hi, Bool.and_eq_true,
    decide_eq_true_eq]

theorem below_bounds {j i : Nat} (h : d.Below j i) : i < j ∧ j < d.nodes.size := by
  by_cases hi : i < d.nodes.size
  · have := (wf.below_iff hi).mp h
    have := wf.subtreeEnd i hi
    omega
  · rw [Below, isDescendant, node_of_size_le (by omega)] at h
    have hend : (default : StateNode L).subtreeEnd = 0 := rfl
    simp [StateNode.contains, hend] at h

theorem lt_of_below {j i : Nat} (h : d.Below j i) : i < j := (wf.below_bounds h).1

theorem not_below_self (i : Nat) : ¬ d.Below i i := fun h => Nat.lt_irrefl _ (wf.lt_of_below h)

/-- A parent is a state that stands earlier. -/
theorem parent_lt {j p : Nat} (h : (d.node j).parent = some p) : p < j ∧ j < d.nodes.size := by
  have hj : j < d.nodes.size := by
    by_contra hge
    rw [node_of_size_le (by omega)] at h
    cases h
  have hpos : 0 < j := by
    rcases Nat.eq_zero_or_pos j with rfl | hpos
    · rw [wf.parent_zero] at h
      cases h
    · exact hpos
  obtain ⟨q, hq, hlt⟩ := wf.parent_pos j hj hpos
  rw [h] at hq
  cases hq
  exact ⟨hlt, hj⟩

/-- A state lies below another one exactly if its parent is that one or lies below it. -/
theorem below_iff_parent {j i : Nat} :
    d.Below j i ↔ ∃ p, (d.node j).parent = some p ∧ d.Within p i := by
  constructor
  · intro h
    have hb := wf.below_bounds h
    have hi : i < d.nodes.size := by omega
    obtain ⟨p, hp, hle, hlt⟩ := (wf.subtree i hi j hb.2 hb.1).mp ((wf.below_iff hi).mp h).2
    refine ⟨p, hp, ?_⟩
    rcases Nat.eq_or_lt_of_le hle with heq | hlt'
    · exact .inl heq.symm
    · exact .inr ((wf.below_iff hi).mpr ⟨hlt', hlt⟩)
  · rintro ⟨p, hp, hwithin⟩
    have hpj := wf.parent_lt hp
    have hle : i ≤ p := by
      rcases hwithin with rfl | hbelow
      · exact Nat.le_refl _
      · exact Nat.le_of_lt (wf.lt_of_below hbelow)
    have hi : i < d.nodes.size := by omega
    have hend : p < (d.node i).subtreeEnd := by
      rcases hwithin with rfl | hbelow
      · exact (wf.subtreeEnd _ hi).1
      · exact ((wf.below_iff hi).mp hbelow).2
    exact (wf.below_iff hi).mpr ⟨by omega, (wf.subtree i hi j hpj.2 (by omega)).mpr
      ⟨p, hp, hle, hend⟩⟩

/-- Whatever lies properly around a state lies around its parent. -/
theorem below_iff_of_parent {j p i : Nat} (hp : (d.node j).parent = some p) :
    d.Below j i ↔ d.Within p i := by
  rw [wf.below_iff_parent, hp]
  simp

theorem below_trans {k j i : Nat} (h : d.Below k j) (h' : d.Below j i) : d.Below k i := by
  induction k using Nat.strongRecOn with
  | _ k ih =>
      obtain ⟨p, hp, hwithin⟩ := wf.below_iff_parent.mp h
      refine wf.below_iff_parent.mpr ⟨p, hp, ?_⟩
      rcases hwithin with rfl | hbelow
      · exact .inr h'
      · exact .inr (ih p (wf.parent_lt hp).1 hbelow)

theorem below_of_within {k j i : Nat} (h : d.Within k j) (h' : d.Below j i) : d.Below k i := by
  rcases h with rfl | h
  · exact h'
  · exact wf.below_trans h h'

theorem below_of_below_within {k j i : Nat} (h : d.Below k j) (h' : d.Within j i) :
    d.Below k i := by
  rcases h' with rfl | h'
  · exact h
  · exact wf.below_trans h h'

theorem within_trans {k j i : Nat} (h : d.Within k j) (h' : d.Within j i) : d.Within k i := by
  rcases h with rfl | h
  · exact h'
  · exact .inr (wf.below_of_below_within h h')

theorem le_of_within {j i : Nat} (h : d.Within j i) : i ≤ j := by
  rcases h with rfl | h
  · exact Nat.le_refl _
  · exact Nat.le_of_lt (wf.lt_of_below h)

theorem within_lt {j i : Nat} (h : d.Within j i) (hi : i < d.nodes.size) : j < d.nodes.size := by
  rcases h with rfl | h
  · exact hi
  · exact (wf.below_bounds h).2

theorem within_antisymm {j i : Nat} (h : d.Within j i) (h' : d.Within i j) : j = i := by
  rcases h with h | h
  · exact h
  · rcases h' with h' | h'
    · exact h'.symm
    · exact absurd (wf.below_trans h h') (wf.not_below_self j)

/-- The states above one state form a chain. -/
theorem below_total {k i j : Nat} (hi : d.Below k i) (hj : d.Below k j) :
    d.Within i j ∨ d.Below j i := by
  have hbi := wf.below_bounds hi
  have hbj := wf.below_bounds hj
  have hi' := (wf.below_iff (i := i) (by omega)).mp hi
  have hj' := (wf.below_iff (i := j) (by omega)).mp hj
  rcases Nat.lt_trichotomy i j with hlt | heq | hgt
  · exact .inr ((wf.below_iff (by omega)).mpr ⟨hlt, by omega⟩)
  · exact .inl (.inl heq)
  · exact .inl (.inr ((wf.below_iff (by omega)).mpr ⟨hgt, by omega⟩))

theorem within_total {k i j : Nat} (hi : d.Within k i) (hj : d.Within k j) :
    d.Within i j ∨ d.Below j i := by
  rcases hi with rfl | hi
  · exact .inl hj
  · rcases hj with rfl | hj
    · exact .inr hi
    · exact wf.below_total hi hj

/-- Everything lies within the root. -/
theorem within_root {i : Nat} (hi : i < d.nodes.size) : d.Within i 0 := by
  induction i using Nat.strongRecOn with
  | _ i ih =>
      rcases Nat.eq_zero_or_pos i with rfl | hpos
      · exact .inl rfl
      · obtain ⟨p, hp, hlt⟩ := wf.parent_pos i hi hpos
        exact .inr (wf.below_iff_parent.mpr ⟨p, hp, ih p hlt (by omega)⟩)

theorem parent_eq_none {i : Nat} (hi : i < d.nodes.size) (h : (d.node i).parent = none) :
    i = 0 := by
  rcases Nat.eq_zero_or_pos i with h0 | hpos
  · exact h0
  · obtain ⟨p, hp, _⟩ := wf.parent_pos i hi hpos
    rw [h] at hp
    cases hp

/-! ## Children -/

theorem mem_children {c i : Nat} : c ∈ (d.node i).children ↔ (d.node c).parent = some i := by
  constructor
  · intro h
    by_cases hi : i < d.nodes.size
    · exact ((wf.children_iff i hi c).mp h).2
    · rw [node_of_size_le (by omega)] at h
      cases h
  · intro h
    have hlt := wf.parent_lt h
    exact (wf.children_iff i (by omega) c).mpr ⟨hlt.2, h⟩

theorem child_below {c i : Nat} (h : c ∈ (d.node i).children) : d.Below c i :=
  wf.below_iff_parent.mpr ⟨i, wf.mem_children.mp h, .inl rfl⟩

theorem child_lt {c i : Nat} (h : c ∈ (d.node i).children) : c < d.nodes.size :=
  (wf.below_bounds (wf.child_below h)).2

/-- Below a state one comes through one of its children. -/
theorem exists_child {j i : Nat} (h : d.Below j i) :
    ∃ c ∈ (d.node i).children, d.Within j c := by
  induction j using Nat.strongRecOn with
  | _ j ih =>
      obtain ⟨p, hp, hwithin⟩ := wf.below_iff_parent.mp h
      rcases hwithin with rfl | hbelow
      · exact ⟨j, wf.mem_children.mpr hp, .inl rfl⟩
      · obtain ⟨c, hc, hpc⟩ := ih p (wf.parent_lt hp).1 hbelow
        exact ⟨c, hc, .inr (wf.below_iff_parent.mpr ⟨p, hp, hpc⟩)⟩

/-- A state lies within one child of another state only. -/
theorem child_unique {j c c' i : Nat} (hc : c ∈ (d.node i).children)
    (hc' : c' ∈ (d.node i).children) (h : d.Within j c) (h' : d.Within j c') : c = c' := by
  -- of two comparable children, the lower one would have a parent below the common one
  have apart : ∀ {a b : Nat}, a ∈ (d.node i).children → b ∈ (d.node i).children →
      ¬ d.Below a b := by
    intro a b ha hb hab
    have hwithin := (wf.below_iff_of_parent (wf.mem_children.mp ha)).mp hab
    exact wf.not_below_self _ (wf.below_of_below_within (wf.child_below hb) hwithin)
  rcases wf.within_total h h' with (heq | hlt) | hlt
  · exact heq
  · exact absurd hlt (apart hc hc')
  · exact absurd hlt (apart hc' hc)

/-- A state within a child does not lie above it. -/
theorem not_within_of_child {c i : Nat} (hc : c ∈ (d.node i).children) : ¬ d.Within i c := by
  intro h
  have := wf.within_antisymm h (.inr (wf.child_below hc))
  subst this
  exact wf.not_below_self _ (wf.child_below hc)

theorem kind_of_child {c i : Nat} (hc : c ∈ (d.node i).children) :
    (d.node i).kind = .compound ∨ (d.node i).kind = .parallel := by
  have hi : i < d.nodes.size := by
    have := wf.below_bounds (wf.child_below hc)
    omega
  exact (wf.children_ne_nil i hi).mp (List.ne_nil_of_mem hc)

theorem kind_of_below {j i : Nat} (h : d.Below j i) :
    (d.node i).kind = .compound ∨ (d.node i).kind = .parallel := by
  obtain ⟨c, hc, _⟩ := wf.exists_child h
  exact wf.kind_of_child hc

theorem not_history_of_below {j i : Nat} (h : d.Below j i) : (d.node i).isHistory = false := by
  rcases wf.kind_of_below h with hk | hk <;> simp [StateNode.isHistory, hk]

/-! ## Proper ancestors -/

theorem climb_stable (stop : Option Nat) (fuel : Nat) {j : Nat} (h : j ≤ fuel) :
    d.climb stop fuel j = d.climb stop j j := by
  induction j using Nat.strongRecOn generalizing fuel with
  | _ j ih =>
      rcases fuel with _ | fuel
      · rw [Nat.le_zero.mp h]
      · cases hp : (d.node j).parent with
        | none =>
            rcases j with _ | j
            · simp [climb, hp]
            · simp [climb, hp]
        | some p =>
            have hlt := (wf.parent_lt hp).1
            rcases j with _ | j
            · omega
            · simp only [climb, hp]
              rw [ih p hlt fuel (by omega), ih p hlt j (by omega)]

/-- The proper ancestors of a state are its parent and that one's proper ancestors. -/
theorem properAncestors_cons {j p : Nat} (stop : Option Nat) (hp : (d.node j).parent = some p) :
    d.properAncestors j stop =
      if some p = stop then [] else p :: d.properAncestors p stop := by
  have hlt := wf.parent_lt hp
  unfold properAncestors
  obtain ⟨n, hn⟩ : ∃ n, d.nodes.size = n + 1 := ⟨d.nodes.size - 1, by omega⟩
  rw [hn, wf.climb_stable stop (n + 1) (j := p) (by omega)]
  simp only [climb, hp]
  rw [wf.climb_stable stop n (j := p) (by omega)]

omit wf in
theorem properAncestors_of_none {j : Nat} (stop : Option Nat) (hp : (d.node j).parent = none) :
    d.properAncestors j stop = [] := by
  unfold properAncestors
  cases d.nodes.size with
  | zero => rfl
  | succ n => simp [climb, hp]

/-- The proper ancestors up to `stop` are the states above that lie below `stop`; a `stop` that is
not above leaves them all. -/
theorem mem_properAncestors {j p : Nat} (stop : Option Nat) :
    p ∈ d.properAncestors j stop ↔
      d.Below j p ∧ ∀ a, stop = some a → d.Below j a → d.Below p a := by
  -- induction along the parents, which stand before their children
  induction j using Nat.strongRecOn with
  | _ j ih =>
      cases hq : (d.node j).parent with
      | none =>
          rw [properAncestors_of_none stop hq]
          simp only [List.not_mem_nil, false_iff, not_and]
          intro h
          obtain ⟨q, hq', _⟩ := wf.below_iff_parent.mp h
          rw [hq] at hq'
          cases hq'
      | some q =>
          have hlt := (wf.parent_lt hq).1
          have hstep : ∀ {x}, d.Below j x ↔ d.Within q x := wf.below_iff_of_parent hq
          have hjq : d.Below j q := hstep.mpr (.inl rfl)
          rw [wf.properAncestors_cons stop hq]
          split
          · rename_i hstop
            simp only [List.not_mem_nil, false_iff, not_and]
            intro hjp hall
            have := hall q hstop.symm hjq
            exact wf.not_below_self p (wf.below_of_below_within this (hstep.mp hjp))
          · rename_i hstop
            rw [List.mem_cons, ih q hlt]
            constructor
            · rintro (rfl | ⟨hqp, hall⟩)
              · refine ⟨hjq, fun a ha hja => ?_⟩
                rcases hstep.mp hja with rfl | h
                · exact absurd ha.symm hstop
                · exact h
              · refine ⟨wf.below_trans hjq hqp, fun a ha hja => ?_⟩
                rcases hstep.mp hja with rfl | h
                · exact absurd ha.symm hstop
                · exact hall a ha h
            · rintro ⟨hjp, hall⟩
              rcases hstep.mp hjp with heq | hqp
              · exact .inl heq.symm
              · exact .inr ⟨hqp, fun a ha hqa => hall a ha (wf.below_trans hjq hqa)⟩

theorem mem_properAncestors_none {j p : Nat} : p ∈ d.properAncestors j none ↔ d.Below j p := by
  rw [wf.mem_properAncestors]
  simp

/-- The proper ancestors stand from the nearest to the root. -/
theorem pairwise_properAncestors {j : Nat} :
    (d.properAncestors j none).Pairwise fun a b => d.Below a b := by
  induction j using Nat.strongRecOn with
  | _ j ih =>
      cases hp : (d.node j).parent with
      | none =>
          rw [properAncestors_of_none none hp]
          exact .nil
      | some p =>
          rw [wf.properAncestors_cons none hp, if_neg (by simp)]
          exact .cons (fun a ha => wf.mem_properAncestors_none.mp ha) (ih p (wf.parent_lt hp).1)

end WellFormed

end Statechart.Definition
