import Statechart.Proofs.Arena
import Statechart.Proofs.StateValue

/-!
# Canonical completions

To complete some targets leaves no choice. A configuration around the targets has to follow them
where there are some, has to enter all regions of parallel states, and elsewhere falls back on what
was active before, or else on what is initial. `Completes` says so without an order in which states
are added; there is exactly one such configuration (`Completes.eq_resolve`), the one that a single
pass in document order finds (`completes_resolve`).
-/

namespace Statechart.Definition

variable {L : Type} {d : Definition L} {previous config : Configuration} {targets : List Nat}
  {p c : Nat}

/-! ## What completions are -/

variable (d) in
/-- A child was active before and can be active again. -/
structure Resumes (previous : Configuration) (p c : Nat) : Prop where
  child : c ∈ (d.node p).children
  before : c ∈ previous
  real : (d.node c).isHistory = false

variable (d) in
/-- Without a target below it, a compound state falls back on its first child that resumes, or on
its initial child if none does. -/
def FallsBack (previous : Configuration) (p c : Nat) : Prop :=
  (d.Resumes previous p c ∧ ∀ c', d.Resumes previous p c' → c ≤ c') ∨
    (∀ c', ¬ d.Resumes previous p c') ∧ (d.node p).initial = some c

variable (d) in
/-- A configuration completes some targets. -/
structure Completes (previous : Configuration) (targets : List Nat) (config : Configuration) :
    Prop where
  lt : ∀ i ∈ config, i < d.nodes.size
  valid : d.isValid config = true
  target : ∀ t ∈ targets, t ∈ config
  fallback : ∀ p ∈ config, (d.node p).kind = .compound → (∀ t ∈ targets, ¬ d.Below t p) →
    ∃ c ∈ (d.node p).children, c ∈ config ∧ d.FallsBack previous p c

/-! ## The child to fall back on -/

/-- In an increasing list, the first element that passes a test is the least one. -/
theorem least_of_find? {is : List Nat} (hsorted : is.Pairwise (· < ·)) {test : Nat → Bool} {i : Nat}
    (hfind : is.find? test = some i) : ∀ j ∈ is, test j = true → i ≤ j := by
  obtain ⟨hi, before, after, rfl, hbefore⟩ := List.find?_eq_some_iff_append.mp hfind
  obtain ⟨-, hafter, -⟩ := List.pairwise_append.mp hsorted
  intro j hj htest
  rcases List.mem_append.mp hj with hj | hj
  · have hno := hbefore j hj
    rw [htest] at hno
    cases hno
  · rcases List.mem_cons.mp hj with rfl | hj
    · exact Nat.le_refl j
    · exact Nat.le_of_lt ((List.pairwise_cons.mp hafter).1 j hj)

theorem resumes_iff : d.Resumes previous p c ↔ c ∈ (d.node p).children ∧
    (previous.contains c && !(d.node c).isHistory) = true := by
  rw [Bool.and_eq_true, Bool.not_eq_true', NodeSet.contains_eq_true]
  constructor
  · rintro ⟨hchild, hbefore, hreal⟩
    exact ⟨hchild, hbefore, hreal⟩
  · rintro ⟨hchild, hbefore, hreal⟩
    exact ⟨hchild, hbefore, hreal⟩

/-- No state has two children to fall back on. -/
theorem FallsBack.unique {c' : Nat} (h : d.FallsBack previous p c)
    (h' : d.FallsBack previous p c') : c = c' := by
  rcases h with ⟨hresumes, hleast⟩ | ⟨hnone, hinitial⟩
  · rcases h' with ⟨hresumes', hleast'⟩ | ⟨hnone', -⟩
    · exact Nat.le_antisymm (hleast c' hresumes') (hleast' c hresumes)
    · exact absurd hresumes (hnone' c)
  · rcases h' with ⟨hresumes', -⟩ | ⟨-, hinitial'⟩
    · exact absurd hresumes' (hnone c')
    · exact Option.some.inj (hinitial.symm.trans hinitial')

namespace WellFormed

variable (wf : d.WellFormed)
include wf

/-- The default child is the one to fall back on. -/
theorem fallsBack_defaultChild (hp : p < d.nodes.size)
    (hdefault : d.defaultChild? previous (d.node p) = some c) : d.FallsBack previous p c := by
  unfold defaultChild? at hdefault
  split at hdefault
  · rename_i c' hfind
    cases hdefault
    left
    have hfirst := List.find?_some hfind
    refine ⟨resumes_iff.mpr ⟨List.mem_of_find?_eq_some hfind, hfirst⟩, ?_⟩
    intro c' hresumes
    obtain ⟨hchild, htest⟩ := resumes_iff.mp hresumes
    exact least_of_find? (wf.children_sorted p hp) hfind c' hchild htest
  · rename_i hfind
    right
    refine ⟨?_, hdefault⟩
    intro c' hresumes
    obtain ⟨hchild, htest⟩ := resumes_iff.mp hresumes
    exact List.find?_eq_none.mp hfind c' hchild htest

/-! ## There is a completion -/

/-- One pass in document order completes the targets. -/
theorem completes_resolve (agree : d.Agreeing targets) (hne : targets ≠ []) :
    d.Completes previous targets (d.resolve previous targets) := by
  have hpossible : d.Possible (d.resolve previous targets) := wf.possible_resolve agree hne
  obtain ⟨hvalid, -, hlt⟩ := wf.possible_iff.mp hpossible
  have hmem : ∀ i, i ∈ d.resolve previous targets ↔ d.Filled previous targets none i :=
    fun i => wf.mem_resolve agree.lt hne
  refine ⟨hlt, hvalid, ?_, ?_⟩
  · intro t ht
    exact (hmem t).mpr (wf.filled_of_targeted ⟨t, ht, .refl t⟩ (agree.lt t ht))
  · intro p hp hk hnone
    have hsize := hlt p hp
    obtain ⟨c, hc, hdefault, -⟩ := wf.defaultChild?_spec previous hsize hk
    have huntargeted : ∀ c' ∈ (d.node p).children, ¬ d.Targeted targets c' := by
      rintro c' hc' ⟨t, ht, hwithin⟩
      exact hnone t ht (wf.below_of_within hwithin (wf.child_below hc'))
    refine ⟨c, hc, ?_, wf.fallsBack_defaultChild hsize hdefault⟩
    exact (hmem c).mpr (.next ((hmem p).mp hp) (wf.mem_children.mp hc)
      (.inr (.inr ⟨hk, huntargeted, hdefault⟩)))

/-! ## There is no other one -/

theorem possible_of_completes (h : d.Completes previous targets config) (hne : targets ≠ []) :
    d.Possible config := by
  refine wf.possible_iff.mpr ⟨h.valid, ?_, h.lt⟩
  rintro rfl
  obtain ⟨t, ht⟩ := List.exists_mem_of_ne_nil targets hne
  exact NodeSet.not_mem_empty t (h.target t ht)

theorem mem_of_targeted (h : d.Completes previous targets config) (hne : targets ≠ [])
    (hc : d.Targeted targets c) : c ∈ config := by
  obtain ⟨t, ht, hwithin⟩ := hc
  exact wf.mem_of_within (wf.possible_of_completes h hne) hwithin (h.target t ht)

/-- Below an active compound state without targets, a completion has the default child. -/
theorem mem_of_defaultChild (h : d.Completes previous targets config) (hp : p ∈ config)
    (hk : (d.node p).kind = .compound)
    (hnone : ∀ c' ∈ (d.node p).children, ¬ d.Targeted targets c')
    (hdefault : d.defaultChild? previous (d.node p) = some c) : c ∈ config := by
  have huntargeted : ∀ t ∈ targets, ¬ d.Below t p := by
    intro t ht hbelow
    obtain ⟨c', hc', hwithin⟩ := wf.exists_child hbelow
    exact hnone c' hc' ⟨t, ht, hwithin⟩
  obtain ⟨c', -, hact, hfalls⟩ := h.fallback p hp hk huntargeted
  rw [(wf.fallsBack_defaultChild (h.lt p hp) hdefault).unique hfalls]
  exact hact

/-- What is filled around the targets is in every completion of them. -/
theorem mem_of_filled (h : d.Completes previous targets config) (hne : targets ≠ []) {i : Nat}
    (hi : d.Filled previous targets none i) : i ∈ config := by
  have hpossible := wf.possible_of_completes h hne
  induction hi with
  | first hlt hp _ =>
      rw [wf.parent_eq_none hlt hp]
      exact hpossible.root
  | @next p c _ hp hchosen ih =>
      rcases hchosen with htarget | ⟨hpar, hno⟩ | ⟨hcomp, hnone, hdefault⟩
      · exact wf.mem_of_targeted h hne htarget
      · exact hpossible.parallel p ih hpar c (wf.mem_children.mpr hp) hno
      · exact wf.mem_of_defaultChild h ih hcomp hnone hdefault

/-- Every active state of a completion was chosen. -/
theorem chosen_of_mem (h : d.Completes previous targets config) (hne : targets ≠ [])
    (hc : c ∈ config) (hchild : c ∈ (d.node p).children) :
    d.Chosen previous targets c (some p) := by
  have hpossible := wf.possible_of_completes h hne
  have hp := hpossible.parent c hc p (wf.mem_children.mp hchild)
  rcases wf.kind_of_child hchild with hk | hk
  · -- there is one active child only, so it is the one that is called for
    obtain ⟨c', hc', -, hunique⟩ := hpossible.compound p hp hk
    by_cases htarget : ∃ c' ∈ (d.node p).children, d.Targeted targets c'
    · obtain ⟨c'', hc'', htargeted⟩ := htarget
      left
      rw [hunique c hchild hc, ← hunique c'' hc'' (wf.mem_of_targeted h hne htargeted)]
      exact htargeted
    · have hnone : ∀ c' ∈ (d.node p).children, ¬ d.Targeted targets c' :=
        fun c' hc' ht => htarget ⟨c', hc', ht⟩
      obtain ⟨c'', hc'', hdefault, -⟩ := wf.defaultChild?_spec previous (h.lt p hp) hk
      have hact := wf.mem_of_defaultChild h hp hk hnone hdefault
      right
      right
      refine ⟨hk, hnone, ?_⟩
      rw [hunique c hchild hc, ← hunique c'' hc'' hact]
      exact hdefault
  · right
    left
    exact ⟨hk, hpossible.history c hc⟩

theorem filled_of_mem (h : d.Completes previous targets config) (hne : targets ≠ []) {i : Nat}
    (hi : i ∈ config) : d.Filled previous targets none i := by
  induction i using Nat.strongRecOn with
  | _ i ih =>
      cases hp : (d.node i).parent with
      | none => exact .first (h.lt i hi) hp trivial
      | some p =>
          have hact := (wf.possible_of_completes h hne).parent i hi p hp
          have hfilled := ih p (wf.parent_lt hp).1 hact
          exact .next hfilled hp (wf.chosen_of_mem h hne hi (wf.mem_children.mpr hp))

/-- All completions are the one that a single pass finds. -/
theorem eq_resolve (h : d.Completes previous targets config) (hne : targets ≠ []) :
    config = d.resolve previous targets := by
  -- the targets are active together, hence they are states
  have hlt : ∀ t ∈ targets, t < d.nodes.size := fun t ht => h.lt t (h.target t ht)
  refine NodeSet.ext fun i => ?_
  rw [wf.mem_resolve hlt hne]
  constructor
  · exact wf.filled_of_mem h hne
  · exact wf.mem_of_filled h hne

/-! ## Configurations complete themselves -/

/-- A configuration completes its root, if it is what was active before. -/
theorem completes_root (hconfig : d.Possible config) :
    d.Completes config [rootIndex] config := by
  obtain ⟨hvalid, -, hlt⟩ := wf.possible_iff.mp hconfig
  refine ⟨hlt, hvalid, ?_, ?_⟩
  · intro t ht
    rw [List.mem_singleton.mp ht]
    exact hconfig.root
  · intro p hp hk _
    obtain ⟨c, hc, hact, hunique⟩ := hconfig.compound p hp hk
    refine ⟨c, hc, hact, .inl ⟨⟨hc, hact, hconfig.history c hact⟩, ?_⟩⟩
    intro c' hresumes
    rw [hunique c' hresumes.child hresumes.before]

end WellFormed

/-- **Canonical completion.** Targets that can be active together have exactly one completion, and
a configuration is the completion of itself, and of the root if it was active before. -/
theorem resolve_canonical (h : d.Accepted) :
    (∀ (previous : Configuration) (targets : List Nat), targets ≠ [] → d.Agreeing targets →
      d.Completes previous targets (d.resolve previous targets) ∧
      ∀ config, d.Completes previous targets config → config = d.resolve previous targets) ∧
    ∀ config : Configuration, d.isValid config = true → config ≠ .empty →
      (∀ i ∈ config, i < d.nodes.size) →
      (∀ active : List Nat, (∀ i, i ∈ active ↔ i ∈ config) → d.resolve .empty active = config) ∧
      d.resolve config [rootIndex] = config := by
  have wf := h.wellFormed
  constructor
  · intro previous targets hne agree
    exact ⟨wf.completes_resolve agree hne, fun config h => wf.eq_resolve h hne⟩
  · intro config hvalid hne hlt
    have hconfig := wf.possible_iff.mpr ⟨hvalid, hne, hlt⟩
    constructor
    · intro active hactive
      have hactive_ne : active ≠ [] := List.ne_nil_of_mem ((hactive 0).mpr hconfig.root)
      exact wf.resolve_active hconfig hactive_ne hactive
    · exact (wf.eq_resolve (wf.completes_root hconfig) (List.cons_ne_nil _ _)).symm

set_option maxRecDepth 100000 in
/-- The door that stood wide open is opened wide again, though it is ajar at first. -/
theorem door_completes :
    door.Completes (.ofList [3, 4]) [1] (door.resolve (.ofList [3, 4]) [1]) ∧
      3 ∈ door.resolve (.ofList [3, 4]) [1] ∧
      door.resolve (.ofList [0, 1, 3]) [rootIndex] = .ofList [0, 1, 3] := by
  have haccepted : door.Accepted := accepted_of_isOk rfl
  have hagree : door.Agreeing [1] :=
    haccepted.wellFormed.agreeing_singleton (by decide) (by decide)
  have hlt : ∀ i ∈ NodeSet.ofList [0, 1, 3], i < door.nodes.size := by
    intro i hi
    have hall : ∀ i ∈ [0, 1, 3], i < door.nodes.size := by decide
    exact hall i ((NodeSet.mem_ofList _ i).mp hi)
  obtain ⟨hcanonical, hself⟩ := resolve_canonical haccepted
  refine ⟨(hcanonical _ [1] (by decide) hagree).1, by decide +kernel, ?_⟩
  exact (hself _ (by decide +kernel) (by decide) hlt).2

end Statechart.Definition
