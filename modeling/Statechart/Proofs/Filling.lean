import Statechart.Configuration
import Statechart.Proofs.Tree

/-!
# Filling a subtree

`Filled` is the declarative counterpart of completing states to a configuration. Below `top` it takes
every state that has a target in it, all regions of parallel states, and in compound states without
targets the default child. `Possible` says what makes a set of states a configuration. The main
result is `Refilled.possible`: to fill the subtrees of some unrelated active states of a possible
configuration anew, each around targets that agree, gives a possible configuration again.
-/

namespace Statechart.Definition

variable {L : Type} (d : Definition L)

/-- Some target lies within a state. -/
def Targeted (targets : List Nat) (c : Nat) : Prop := ∃ t ∈ targets, d.Within t c

/-- Whether a state is taken below the one above it, if that is taken. -/
def Chosen (previous : Configuration) (targets : List Nat) (c : Nat) : Option Nat → Prop
  | none => True
  | some p =>
      d.Targeted targets c ∨
        (d.node p).kind = .parallel ∧ (d.node c).isHistory = false ∨
        (d.node p).kind = .compound ∧ (∀ c' ∈ (d.node p).children, ¬ d.Targeted targets c') ∧
          d.defaultChild? previous (d.node p) = some c

/-- The states taken below `top`, or in the whole tree. -/
inductive Filled (previous : Configuration) (targets : List Nat) (top : Option Nat) : Nat → Prop
  | first {c : Nat} : c < d.nodes.size → (d.node c).parent = top →
      d.Chosen previous targets c top → Filled previous targets top c
  | next {p c : Nat} : Filled previous targets top p → (d.node c).parent = some p →
      d.Chosen previous targets c (some p) → Filled previous targets top c

/-- A state lies below `top`, or in the tree at all. -/
def Under (top : Option Nat) (i : Nat) : Prop :=
  match top with
  | none => i < d.nodes.size
  | some a => d.Below i a

/-- What makes a set of states a configuration. -/
structure Possible (config : Configuration) : Prop where
  lt : ∀ i ∈ config, i < d.nodes.size
  root : 0 ∈ config
  parent : ∀ i ∈ config, ∀ p, (d.node i).parent = some p → p ∈ config
  compound : ∀ i ∈ config, (d.node i).kind = .compound →
    ∃ c ∈ (d.node i).children, c ∈ config ∧ ∀ c' ∈ (d.node i).children, c' ∈ config → c' = c
  parallel : ∀ i ∈ config, (d.node i).kind = .parallel →
    ∀ c ∈ (d.node i).children, (d.node c).isHistory = false → c ∈ config
  history : ∀ i ∈ config, (d.node i).isHistory = false

/-- Targets that can be active together. -/
structure Agreeing (targets : List Nat) : Prop where
  lt : ∀ t ∈ targets, t < d.nodes.size
  history : ∀ t ∈ targets, (d.node t).isHistory = false
  unique : ∀ p, (d.node p).kind = .compound → ∀ c ∈ (d.node p).children,
    ∀ c' ∈ (d.node p).children, d.Targeted targets c → d.Targeted targets c' → c = c'

/-- Neither of two subtrees reaches into the other. -/
def Apart (top top' : Option Nat) : Prop :=
  ∃ a b, top = some a ∧ top' = some b ∧ ¬ d.Within a b ∧ ¬ d.Within b a

variable {d} {previous : Configuration} {targets : List Nat} {top : Option Nat}

theorem Apart.symm {top' : Option Nat} (h : d.Apart top top') : d.Apart top' top := by
  obtain ⟨a, b, ha, hb, hab, hba⟩ := h
  exact ⟨b, a, hb, ha, hba, hab⟩

/-- The state above a filled one is filled or is `top`, and has chosen it. -/
theorem Filled.parent {i : Nat} (h : d.Filled previous targets top i) :
    d.Chosen previous targets i (d.node i).parent ∧
      ((d.node i).parent = top ∨ ∃ p, (d.node i).parent = some p ∧
        d.Filled previous targets top p) := by
  cases h with
  | first _ hp hchosen => exact ⟨by rw [hp]; exact hchosen, .inl hp⟩
  | next hfilled hp hchosen => exact ⟨by rw [hp]; exact hchosen, .inr ⟨_, hp, hfilled⟩⟩

theorem Filled.trans {x i : Nat} (hx : d.Filled previous targets top x)
    (h : d.Filled previous targets (some x) i) : d.Filled previous targets top i := by
  induction h with
  | first _ hp hchosen => exact .next hx hp hchosen
  | next _ hp hchosen ih => exact .next ih hp hchosen

@[simp] theorem not_targeted_nil (c : Nat) : ¬ d.Targeted [] c := by
  simp [Targeted]

@[simp] theorem targeted_singleton {t c : Nat} : d.Targeted [t] c ↔ d.Within t c := by
  simp [Targeted]

namespace WellFormed

variable (wf : d.WellFormed)
include wf

/-! ## What is filled -/

theorem under_lt {i : Nat} (h : d.Under top i) : i < d.nodes.size := by
  cases top with
  | none => exact h
  | some a => exact (wf.below_bounds h).2

/-- What lies below a state under `top` lies under `top` itself. -/
theorem under_of_below {j i : Nat} (h : d.Below j i) (hi : d.Under top i) : d.Under top j := by
  cases top with
  | none => exact (wf.below_bounds h).2
  | some a => exact wf.below_trans h hi

/-- A state lies under `top` exactly if `top` is above it at once or its parent lies under it. -/
theorem under_iff_parent {i : Nat} (hi : i < d.nodes.size) :
    d.Under top i ↔ (d.node i).parent = top ∨ ∃ p, (d.node i).parent = some p ∧ d.Under top p := by
  cases top with
  | none =>
      cases hp : (d.node i).parent with
      | none => simpa [Under] using hi
      | some p => simpa [Under, hi] using Nat.lt_trans (wf.parent_lt hp).1 hi
  | some a =>
      simp only [Under, wf.below_iff_parent (j := i), Within]
      constructor
      · rintro ⟨p, hp, rfl | hbelow⟩
        · exact .inl hp
        · exact .inr ⟨p, hp, hbelow⟩
      · rintro (hp | ⟨p, hp, hbelow⟩)
        · exact ⟨a, hp, .inl rfl⟩
        · exact ⟨p, hp, .inr hbelow⟩

theorem filled_under {i : Nat} (h : d.Filled previous targets top i) : d.Under top i := by
  induction h with
  | first hlt hp _ => exact (wf.under_iff_parent hlt).mpr (.inl hp)
  | next _ hp _ ih => exact (wf.under_iff_parent (wf.parent_lt hp).2).mpr (.inr ⟨_, hp, ih⟩)

theorem filled_lt {i : Nat} (h : d.Filled previous targets top i) : i < d.nodes.size :=
  wf.under_lt (wf.filled_under h)

/-- Of the children of a state that is filled or is `top`, exactly those chosen are filled. -/
theorem filled_child_iff {p c : Nat} (hc : c ∈ (d.node p).children)
    (hp : top = some p ∨ d.Filled previous targets top p) :
    d.Filled previous targets top c ↔ d.Chosen previous targets c (some p) := by
  have hparent := wf.mem_children.mp hc
  constructor
  · intro h
    have := h.parent.1
    rwa [hparent] at this
  · intro hchosen
    rcases hp with rfl | hfilled
    · exact .first (wf.child_lt hc) hparent hchosen
    · exact .next hfilled hparent hchosen

/-- Whatever leads to a target is filled. -/
theorem filled_of_targeted {c : Nat} (hc : d.Targeted targets c) (hunder : d.Under top c) :
    d.Filled previous targets top c := by
  induction c using Nat.strongRecOn with
  | _ c ih =>
      have hlt := wf.under_lt hunder
      have hchosen : d.Chosen previous targets c (d.node c).parent := by
        cases (d.node c).parent with
        | none => trivial
        | some p => exact .inl hc
      rcases (wf.under_iff_parent hlt).mp hunder with hp | ⟨p, hp, hpunder⟩
      · exact .first hlt hp (by rw [← hp]; exact hchosen)
      · obtain ⟨t, ht, hwithin⟩ := hc
        have hcp : d.Below c p := wf.below_iff_parent.mpr ⟨p, hp, .inl rfl⟩
        rw [hp] at hchosen
        exact .next (ih p (wf.parent_lt hp).1 ⟨t, ht, .inr (wf.below_of_within hwithin hcp)⟩
          hpunder) hp hchosen

/-- Only the targets under `top` matter. -/
theorem filled_congr {targets' : List Nat} {i : Nat}
    (heq : ∀ c, d.Under top c → (d.Targeted targets c ↔ d.Targeted targets' c))
    (h : d.Filled previous targets top i) : d.Filled previous targets' top i := by
  -- A choice looks at the children of one state, and these stand under the top with it.
  have hchosen : ∀ {c p}, (d.node c).parent = some p → (∀ c' ∈ (d.node p).children,
      d.Under top c') → d.Chosen previous targets c (some p) →
        d.Chosen previous targets' c (some p) := by
    rintro c p hp hunder (htarget | hpar | ⟨hcomp, hno, hdefault⟩)
    · exact .inl ((heq c (hunder c (wf.mem_children.mpr hp))).mp htarget)
    · exact .inr (.inl hpar)
    · exact .inr (.inr ⟨hcomp, fun c' hc' ht => hno c' hc' ((heq c' (hunder c' hc')).mpr ht),
        hdefault⟩)
  induction h with
  | @first c hlt hp h =>
      refine .first hlt hp ?_
      cases top with
      | none => trivial
      | some a => exact hchosen hp (fun c' hc' => wf.child_below hc') h
  | next hfilled hp h ih =>
      have hunder := wf.filled_under hfilled
      exact .next ih hp (hchosen hp
        (fun c' hc' => wf.under_of_below (wf.child_below hc') hunder) h)

/-- Below a state without targets below it, the others do not matter. -/
theorem filled_of_untargeted {x i : Nat} (hno : ∀ t ∈ targets, ¬ d.Below t x) :
    d.Filled previous targets (some x) i ↔ d.Filled previous [] (some x) i := by
  have heq : ∀ c, d.Under (some x) c → (d.Targeted targets c ↔ d.Targeted [] c) := by
    intro c hc
    simp only [not_targeted_nil, iff_false]
    rintro ⟨t, ht, hwithin⟩
    exact hno t ht (wf.below_of_within hwithin hc)
  exact ⟨wf.filled_congr heq, wf.filled_congr fun c hc => (heq c hc).symm⟩

/-- What is filled below a state under `top` is filled from that state on. -/
theorem filled_split {x i : Nat} (hx : d.Under top x) (hi : d.Below i x)
    (h : d.Filled previous targets top i) :
    d.Filled previous targets top x ∧ d.Filled previous targets (some x) i := by
  induction h with
  | first _ hp _ =>
      -- nothing lies between a state and its parent
      obtain ⟨p, hp', hwithin⟩ := wf.below_iff_parent.mp hi
      rw [hp'] at hp
      subst hp
      exact absurd (wf.below_of_within hwithin hx) (wf.not_below_self p)
  | @next p c hfilled hp hchosen ih =>
      rcases (wf.below_iff_of_parent hp).mp hi with rfl | hbelow
      · exact ⟨hfilled, .first (wf.parent_lt hp).2 hp hchosen⟩
      · obtain ⟨hx', h'⟩ := ih hbelow
        exact ⟨hx', .next h' hp hchosen⟩

/-! ## Fillings are complete -/

theorem defaultChild?_spec (previous : Configuration) {p : Nat} (hp : p < d.nodes.size)
    (hk : (d.node p).kind = .compound) :
    ∃ c ∈ (d.node p).children, d.defaultChild? previous (d.node p) = some c ∧
      (d.node c).isHistory = false := by
  unfold defaultChild?
  split
  · rename_i c hfind
    have hprop := List.find?_some hfind
    simp only [Bool.and_eq_true, Bool.not_eq_true'] at hprop
    exact ⟨c, List.mem_of_find?_eq_some hfind, rfl, hprop.2⟩
  · exact wf.initial p hp hk

theorem filled_not_history (agree : d.Agreeing targets) {i : Nat}
    (h : d.Filled previous targets top i) : (d.node i).isHistory = false := by
  have hchosen := h.parent.1
  cases hp : (d.node i).parent with
  | none =>
      rw [wf.parent_eq_none (wf.filled_lt h) hp]
      simpa [StateNode.isHistory] using wf.root_kind.1
  | some p =>
      rw [hp] at hchosen
      rcases hchosen with ⟨t, ht, rfl | hbelow⟩ | ⟨_, hno⟩ | ⟨hk, _, hdefault⟩
      · exact agree.history t ht
      · exact wf.not_history_of_below hbelow
      · exact hno
      · have hlt := wf.parent_lt hp
        obtain ⟨c, _, hc, hno⟩ := wf.defaultChild?_spec previous (by omega) hk
        rw [hdefault] at hc
        cases hc
        exact hno

/-- Exactly one child of a compound state is chosen. -/
theorem chosen_compound (previous : Configuration) (agree : d.Agreeing targets) {p : Nat} (hp : p < d.nodes.size)
    (hk : (d.node p).kind = .compound) :
    ∃ c ∈ (d.node p).children, d.Chosen previous targets c (some p) ∧
      ∀ c' ∈ (d.node p).children, d.Chosen previous targets c' (some p) → c' = c := by
  by_cases htarget : ∃ c ∈ (d.node p).children, d.Targeted targets c
  · obtain ⟨c, hc, hct⟩ := htarget
    refine ⟨c, hc, .inl hct, fun c' hc' hchosen => ?_⟩
    rcases hchosen with hct' | ⟨hpar, _⟩ | ⟨_, hno, _⟩
    · exact agree.unique p hk c' hc' c hc hct' hct
    · rw [hk] at hpar
      cases hpar
    · exact absurd hct (hno c hc)
  · obtain ⟨c, hc, hdefault, _⟩ := wf.defaultChild?_spec previous hp hk
    have hno : ∀ c' ∈ (d.node p).children, ¬ d.Targeted targets c' :=
      fun c' hc' ht => htarget ⟨c', hc', ht⟩
    refine ⟨c, hc, .inr (.inr ⟨hk, hno, hdefault⟩), fun c' hc' hchosen => ?_⟩
    rcases hchosen with hct' | ⟨hpar, _⟩ | ⟨_, _, hdefault'⟩
    · exact absurd hct' (hno c' hc')
    · rw [hk] at hpar
      cases hpar
    · rw [hdefault] at hdefault'
      exact (Option.some.inj hdefault').symm

/-! ## Refilling subtrees -/

theorem apart_under {top top' : Option Nat} (h : d.Apart top top') {i : Nat}
    (hi : d.Under top i) : ¬ d.Under top' i := by
  obtain ⟨a, b, rfl, rfl, hab, hba⟩ := h
  intro hi'
  rcases wf.below_total hi hi' with hw | hw
  · exact hab hw
  · exact hba (.inr hw)

end WellFormed

/-- `after` is `config` with the subtrees of some unrelated active states filled anew. -/
structure Refilled (previous config : Configuration) (ls : List (Option Nat × List Nat))
    (after : Configuration) : Prop where
  agree : ∀ l ∈ ls, d.Agreeing l.2
  active : ∀ l ∈ ls, ∀ a, l.1 = some a → a ∈ config
  apart : ∀ l ∈ ls, ∀ l' ∈ ls, l = l' ∨ d.Apart l.1 l'.1
  mem : ∀ i, i ∈ after ↔ (i ∈ config ∧ ∀ l ∈ ls, ¬ d.Under l.1 i) ∨
    ∃ l ∈ ls, d.Filled previous l.2 l.1 i

namespace Refilled

variable {config after : Configuration} {ls : List (Option Nat × List Nat)}
  (wf : d.WellFormed) (h : d.Refilled previous config ls after)
include wf h

/-- The states whose subtrees are filled anew stay active. -/
theorem top_mem {l : Option Nat × List Nat} (hl : l ∈ ls) {a : Nat} (ha : l.1 = some a) :
    a ∈ after := by
  refine (h.mem a).mpr (.inl ⟨h.active l hl a ha, fun l' hl' hunder => ?_⟩)
  rcases h.apart l hl l' hl' with rfl | hap
  · rw [ha] at hunder
    exact wf.not_below_self a hunder
  · obtain ⟨a', b, ha', hb, hab, _⟩ := hap
    rw [ha] at ha'
    cases ha'
    rw [hb] at hunder
    exact hab (.inr hunder)

/-- In a place that is filled anew, what is chosen is what is active. -/
theorem mem_child_inside {l : Option Nat × List Nat} (hl : l ∈ ls) {p : Nat}
    (hp : l.1 = some p ∨ d.Filled previous l.2 l.1 p) {c : Nat} (hc : c ∈ (d.node p).children) :
    c ∈ after ↔ d.Chosen previous l.2 c (some p) := by
  have hunder : d.Under l.1 c := by
    rcases hp with hp | hp
    · rw [hp]
      exact wf.child_below hc
    · exact wf.under_of_below (wf.child_below hc) (wf.filled_under hp)
  rw [h.mem, ← wf.filled_child_iff hc hp]
  constructor
  · rintro (⟨_, hno⟩ | ⟨l', hl', hfilled⟩)
    · exact absurd hunder (hno l hl)
    · rcases h.apart l hl l' hl' with rfl | hap
      · exact hfilled
      · exact absurd (wf.filled_under hfilled) (wf.apart_under hap hunder)
  · exact fun hfilled => .inr ⟨l, hl, hfilled⟩

/-- Elsewhere nothing changes. -/
theorem mem_child_outside {p : Nat} (hno : ∀ l ∈ ls, ¬ d.Under l.1 p)
    (hne : ∀ l ∈ ls, l.1 ≠ some p) {c : Nat} (hc : c ∈ (d.node p).children) :
    c ∈ after ↔ c ∈ config := by
  -- The parent of a child under a top is that top or under it.
  have hno' : ∀ l ∈ ls, ¬ d.Under l.1 c := by
    intro l hl hunder
    rcases (wf.under_iff_parent (wf.child_lt hc)).mp hunder with hp | ⟨p', hp', hunder'⟩
    · rw [wf.mem_children.mp hc] at hp
      exact hne l hl hp.symm
    · rw [wf.mem_children.mp hc] at hp'
      cases hp'
      exact hno l hl hunder'
  rw [h.mem]
  constructor
  · rintro (⟨hmem, _⟩ | ⟨l, hl, hfilled⟩)
    · exact hmem
    · exact absurd (wf.filled_under hfilled) (hno' l hl)
  · exact fun hmem => .inl ⟨hmem, hno'⟩

omit wf in
/-- Each active state stands in a place that is filled anew or elsewhere. -/
theorem inside_or_outside {p : Nat} (hp : p ∈ after) :
    (∃ l ∈ ls, l.1 = some p ∨ d.Filled previous l.2 l.1 p) ∨
      p ∈ config ∧ (∀ l ∈ ls, ¬ d.Under l.1 p) ∧ ∀ l ∈ ls, l.1 ≠ some p := by
  rcases (h.mem p).mp hp with ⟨hmem, hno⟩ | ⟨l, hl, hfilled⟩
  · by_cases htops : ∃ l ∈ ls, l.1 = some p
    · obtain ⟨l, hl, heq⟩ := htops
      exact .inl ⟨l, hl, .inl heq⟩
    · exact .inr ⟨hmem, hno, fun l hl heq => htops ⟨l, hl, heq⟩⟩
  · exact .inl ⟨l, hl, .inr hfilled⟩

theorem root_mem (hconfig : d.Possible config) : 0 ∈ after := by
  by_cases hnone : ∃ l ∈ ls, l.1 = none
  · obtain ⟨l, hl, heq⟩ := hnone
    refine (h.mem 0).mpr (.inr ⟨l, hl, ?_⟩)
    rw [heq]
    exact .first wf.size_pos wf.parent_zero trivial
  · refine (h.mem 0).mpr (.inl ⟨hconfig.root, fun l hl hunder => ?_⟩)
    cases htop : l.1 with
    | none => exact hnone ⟨l, hl, htop⟩
    | some a =>
        rw [htop] at hunder
        exact Nat.not_lt_zero _ (wf.lt_of_below hunder)

theorem mem_lt (hconfig : d.Possible config) {i : Nat} (hi : i ∈ after) : i < d.nodes.size := by
  rcases (h.mem i).mp hi with ⟨hmem, _⟩ | ⟨l, _, hfilled⟩
  · exact hconfig.lt i hmem
  · exact wf.filled_lt hfilled

theorem parent_mem (hconfig : d.Possible config) {i p : Nat} (hi : i ∈ after)
    (hp : (d.node i).parent = some p) : p ∈ after := by
  rcases (h.mem i).mp hi with ⟨hmem, hno⟩ | ⟨l, hl, hfilled⟩
  · refine (h.mem p).mpr (.inl ⟨hconfig.parent i hmem p hp, fun l hl hunder => ?_⟩)
    exact hno l hl ((wf.under_iff_parent (wf.parent_lt hp).2).mpr (.inr ⟨p, hp, hunder⟩))
  · rcases hfilled.parent.2 with htop | ⟨p', hp', hfilled'⟩
    · exact h.top_mem wf hl (by rw [← htop, hp])
    · rw [hp] at hp'
      cases hp'
      exact (h.mem p).mpr (.inr ⟨l, hl, hfilled'⟩)

/-- To fill unrelated subtrees of a possible configuration anew gives a possible configuration. -/
theorem possible (hconfig : d.Possible config) : d.Possible after where
  lt i hi := h.mem_lt wf hconfig hi
  root := h.root_mem wf hconfig
  parent i hi p hp := h.parent_mem wf hconfig hi hp
  compound p hp hk := by
    rcases h.inside_or_outside hp with ⟨l, hl, hplace⟩ | ⟨hmem, hno, hne⟩
    · obtain ⟨c, hc, hchosen, hunique⟩ :=
        wf.chosen_compound previous (h.agree l hl) (h.mem_lt wf hconfig hp) hk
      exact ⟨c, hc, (h.mem_child_inside wf hl hplace hc).mpr hchosen,
        fun c' hc' hact => hunique c' hc' ((h.mem_child_inside wf hl hplace hc').mp hact)⟩
    · obtain ⟨c, hc, hact, hunique⟩ := hconfig.compound p hmem hk
      exact ⟨c, hc, (h.mem_child_outside wf hno hne hc).mpr hact,
        fun c' hc' hact' => hunique c' hc' ((h.mem_child_outside wf hno hne hc').mp hact')⟩
  parallel p hp hk c hc hhist := by
    rcases h.inside_or_outside hp with ⟨l, hl, hplace⟩ | ⟨hmem, hno, hne⟩
    · exact (h.mem_child_inside wf hl hplace hc).mpr (.inr (.inl ⟨hk, hhist⟩))
    · exact (h.mem_child_outside wf hno hne hc).mpr (hconfig.parallel p hmem hk c hc hhist)
  history i hi := by
    rcases (h.mem i).mp hi with ⟨hmem, _⟩ | ⟨l, hl, hfilled⟩
    · exact hconfig.history i hmem
    · exact wf.filled_not_history (h.agree l hl) hfilled

end Refilled

end Statechart.Definition
