import Statechart.Entry
import Statechart.Proofs.Filling

/-!
# Entry sets

What the recursion for entry sets adds to the states entered so far. A state brings in what is
`ByDefault` below it (`mem_addState`). To climb from a target is to make visits on the way, each of
which enters the regions in which nothing is entered yet; several climbs are one list of visits, and
what a list of visits adds does not depend on the order (`mem_foldl_visit`). The main result is
`mem_visited_iff_filled`: where the subtree was empty before, the visits from targets to the domain
leave exactly what is filled around the targets.
-/

namespace Statechart.Definition

variable {L : Type} (d : Definition L)

/-- A state or something that is filled below it without targets. -/
def ByDefault (c i : Nat) : Prop := i = c ∨ d.Filled .empty [] (some c) i

/-- Some state of a set lies within a state. -/
def Covered (entry : Configuration) (c : Nat) : Prop := ∃ s ∈ entry, d.Within s c

/-- Entering a state that is not covered adds what is there by default. -/
def Enters (enter : Configuration → Nat → Configuration) (c : Nat) : Prop :=
  ∀ entry, ¬ d.Covered entry c → ∀ i, i ∈ enter entry c ↔ i ∈ entry ∨ d.ByDefault c i

/-- A region of a parallel state. -/
def Region (z c : Nat) : Prop :=
  (d.node z).kind = .parallel ∧ c ∈ (d.node z).children ∧ (d.node c).isHistory = false

/-- Passes by a state on a climb, and enters it if the mark is set. -/
def visit (enter : Configuration → Nat → Configuration) (entry : Configuration)
    (v : Nat × Bool) : Configuration :=
  let entry := if v.2 then entry.insert v.1 else entry
  if (d.node v.1).kind = .parallel then d.fillRegions enter entry v.1 else entry

/-- The visits on the way from a state up to `top`, which itself is not entered. -/
def visits (top : Option Nat) (x : Nat) : List (Nat × Bool) :=
  (d.properAncestors x top).map (·, true) ++ top.toList.map (·, false)

/-- No two states of a list lie in each other. -/
def Scattered (targets : List Nat) : Prop :=
  targets.Pairwise fun t t' => ¬ d.Within t t' ∧ ¬ d.Within t' t

/-- What is in the regions that visits find empty. -/
def Opened (entry : Configuration) (targets : List Nat) (vs : List (Nat × Bool)) (i : Nat) :
    Prop :=
  ∃ v ∈ vs, ∃ c, d.Region v.1 c ∧
    (∀ s, (s ∈ entry ∨ ∃ t ∈ targets, d.ByDefault t s) → ¬ d.Within s c) ∧ d.ByDefault c i

/-- What is entered after some targets, entered by default, and some visits. -/
def Visited (entry : Configuration) (targets : List Nat) (vs : List (Nat × Bool)) (i : Nat) :
    Prop :=
  i ∈ entry ∨ (∃ t ∈ targets, d.ByDefault t i) ∨ (i, true) ∈ vs ∨ d.Opened entry targets vs i

variable {d} {enter : Configuration → Nat → Configuration} {entry : Configuration}

theorem isCovered_iff {c : Nat} : d.isCovered entry c = true ↔ d.Covered entry c := by
  simp [isCovered, Covered, Within]

theorem Covered.mono {entry' : Configuration} {c : Nat} (h : d.Covered entry c)
    (hsub : ∀ i ∈ entry, i ∈ entry') : d.Covered entry' c := by
  obtain ⟨s, hs, hwithin⟩ := h
  exact ⟨s, hsub s hs, hwithin⟩

theorem not_covered_empty (c : Nat) : ¬ d.Covered .empty c := by
  rintro ⟨s, hs, -⟩
  exact NodeSet.not_mem_empty s hs

/-- What is entered beside what was there before would also be entered alone. -/
theorem Visited.subset {targets : List Nat} {vs : List (Nat × Bool)} {i : Nat}
    (h : d.Visited entry targets vs i) : i ∈ entry ∨ d.Visited .empty targets vs i := by
  rcases h with h | h | h | ⟨v, hv, c, hregion, hno, h⟩
  · exact .inl h
  · exact .inr (.inr (.inl h))
  · exact .inr (.inr (.inr (.inl h)))
  · refine .inr (.inr (.inr (.inr ⟨v, hv, c, hregion, fun s hs => hno s ?_, h⟩)))
    exact hs.imp (fun h => absurd h (NodeSet.not_mem_empty s)) fun h => h

theorem foldl_addAbove {top : Option Nat} {xs : List Nat} :
    xs.foldl (d.addAbove enter top) entry =
      (xs.flatMap (d.visits top)).foldl (d.visit enter) entry := by
  have hone : ∀ entry x, d.addAbove enter top entry x =
      (d.visits top x).foldl (d.visit enter) entry := by
    intro entry x
    rw [visits, List.foldl_append, List.foldl_map, List.foldl_map]
    cases top with
    | none => rfl
    | some a => rfl
  rw [List.foldl_flatMap]
  exact List.foldl_ext _ _ _ fun entry x _ => hone entry x

namespace WellFormed

variable (wf : d.WellFormed)
include wf

/-! ## Regions -/

theorem byDefault_within {c i : Nat} (h : d.ByDefault c i) : d.Within i c := by
  rcases h with rfl | h
  · exact .inl rfl
  · exact .inr (wf.filled_under h)

/-- Below a state one fills the children chosen and what is below these. -/
theorem filled_some_iff {previous : Configuration} {targets : List Nat} {x i : Nat} :
    d.Filled previous targets (some x) i ↔ ∃ c ∈ (d.node x).children,
      d.Chosen previous targets c (some x) ∧
        (i = c ∨ d.Filled previous targets (some c) i) := by
  constructor
  · intro h
    obtain ⟨c, hc, hwithin⟩ := wf.exists_child (wf.filled_under h)
    rcases hwithin with rfl | hbelow
    · exact ⟨i, hc, (wf.filled_child_iff hc (.inl rfl)).mp h, .inl rfl⟩
    · have hunder : d.Under (some x) c := wf.child_below hc
      obtain ⟨hcf, h'⟩ := wf.filled_split hunder hbelow h
      exact ⟨c, hc, (wf.filled_child_iff hc (.inl rfl)).mp hcf, .inr h'⟩
  · rintro ⟨c, hc, hchosen, h⟩
    have hcf := (wf.filled_child_iff hc (.inl rfl)).mpr hchosen
    rcases h with rfl | h
    · exact hcf
    · exact hcf.trans h

/-- Entering what is by default in one child covers no other child. -/
theorem covered_sibling {z c c' : Nat} (hc : c ∈ (d.node z).children)
    (hc' : c' ∈ (d.node z).children) (hne : c ≠ c') {entry' : Configuration}
    (hentry : ∀ i, i ∈ entry' ↔ i ∈ entry ∨ d.ByDefault c' i) :
    d.Covered entry' c ↔ d.Covered entry c := by
  constructor
  · rintro ⟨s, hs, hwithin⟩
    rcases (hentry s).mp hs with hs | hs
    · exact ⟨s, hs, hwithin⟩
    · exact absurd (wf.child_unique hc hc' hwithin (wf.byDefault_within hs)) hne
  · exact fun h => h.mono fun s hs => (hentry s).mpr (.inl hs)

/-- To insert a state covers none of its children. -/
theorem covered_insert_iff {z c : Nat} (hc : c ∈ (d.node z).children) :
    d.Covered (entry.insert z) c ↔ d.Covered entry c := by
  constructor
  · rintro ⟨s, hs, hwithin⟩
    rcases (NodeSet.mem_insert _ _ _).mp hs with rfl | hs
    · exact absurd hwithin (wf.not_within_of_child hc)
    · exact ⟨s, hs, hwithin⟩
  · exact fun h => h.mono fun s hs => (NodeSet.mem_insert _ _ _).mpr (.inr hs)

theorem not_covered_insert {z c : Nat} (hc : c ∈ (d.node z).children)
    (hno : ¬ d.Covered entry z) : ¬ d.Covered (entry.insert z) c := fun hcov => by
  obtain ⟨s, hs, hwithin⟩ := (wf.covered_insert_iff hc).mp hcov
  exact hno ⟨s, hs, wf.within_trans hwithin (.inr (wf.child_below hc))⟩

/-- Some children of a state are entered one after the other, unless they are covered. -/
theorem mem_foldl_regions {z : Nat} (henter : ∀ c ∈ (d.node z).children,
    (d.node c).isHistory = false → d.Enters enter c) {i : Nat} :
    ∀ (cs : List Nat), (∀ c ∈ cs, c ∈ (d.node z).children) → ∀ entry,
      i ∈ cs.foldl (fun entry region =>
        if (d.node region).isHistory || d.isCovered entry region then entry
        else enter entry region) entry ↔
          i ∈ entry ∨ ∃ c ∈ cs, (d.node c).isHistory = false ∧ ¬ d.Covered entry c ∧
            d.ByDefault c i := by
  intro cs
  induction cs with
  | nil => simp
  | cons c rest ih =>
      intro hcs entry
      have hc := hcs c List.mem_cons_self
      rw [List.foldl_cons, ih fun c' hc' => hcs c' (List.mem_cons_of_mem _ hc'),
        List.exists_mem_cons_iff]
      by_cases hskip : (d.node c).isHistory = true ∨ d.Covered entry c
      · rw [if_pos (by simpa [isCovered_iff] using hskip)]
        have hno : ¬ ((d.node c).isHistory = false ∧ ¬ d.Covered entry c ∧ d.ByDefault c i) := by
          rintro ⟨hhist, hcov, -⟩
          rcases hskip with h | h
          · rw [h] at hhist
            cases hhist
          · exact hcov h
        simp [hno]
      · rw [if_neg (by simpa [isCovered_iff] using hskip)]
        obtain ⟨hhist, hcov⟩ := not_or.mp hskip
        rw [Bool.not_eq_true] at hhist
        have hmem := henter c hc hhist entry hcov
        rw [hmem]
        constructor
        · rintro ((h | h) | ⟨c', hc', hhist', hcov', h⟩)
          · exact .inl h
          · exact .inr (.inl ⟨hhist, hcov, h⟩)
          · refine .inr (.inr ⟨c', hc', hhist', fun h' => hcov' (h'.mono fun s hs => ?_), h⟩)
            exact (hmem s).mpr (.inl hs)
        · rintro (h | ⟨_, _, h⟩ | ⟨c', hc', hhist', hcov', h⟩)
          · exact .inl (.inl h)
          · exact .inl (.inr h)
          · -- a child entered before does not cover the later ones
            by_cases heq : c' = c
            · subst heq
              exact .inl (.inr h)
            · have hsame := wf.covered_sibling (hcs c' (List.mem_cons_of_mem _ hc')) hc heq hmem
              exact .inr ⟨c', hc', hhist', fun h' => hcov' (hsame.mp h'), h⟩

/-- The regions that are not covered are entered by default. -/
theorem mem_fillRegions {z : Nat} (henter : ∀ c ∈ (d.node z).children,
    (d.node c).isHistory = false → d.Enters enter c) {i : Nat} :
    i ∈ d.fillRegions enter entry z ↔ i ∈ entry ∨ ∃ c ∈ (d.node z).children,
      (d.node c).isHistory = false ∧ ¬ d.Covered entry c ∧ d.ByDefault c i :=
  wf.mem_foldl_regions henter _ (fun _ h => h) entry

/-! ## Visits -/

/-- Passing by a parallel state enters its regions, any other state nothing. -/
theorem mem_passed_regions {z : Nat} (henter : ∀ c, d.Region z c → d.Enters enter c) {i : Nat} :
    i ∈ (if (d.node z).kind = .parallel then d.fillRegions enter entry z else entry) ↔
      i ∈ entry ∨ ∃ c, d.Region z c ∧ ¬ d.Covered entry c ∧ d.ByDefault c i := by
  by_cases hk : (d.node z).kind = .parallel
  · rw [if_pos hk, wf.mem_fillRegions fun c hc hhist => henter c ⟨hk, hc, hhist⟩]
    refine or_congr_right ⟨?_, ?_⟩
    · rintro ⟨c, hc, hhist, hno, h⟩
      exact ⟨c, ⟨hk, hc, hhist⟩, hno, h⟩
    · rintro ⟨c, ⟨_, hc, hhist⟩, hno, h⟩
      exact ⟨c, hc, hhist, hno, h⟩
  · rw [if_neg hk]
    refine ⟨.inl, ?_⟩
    rintro (h | ⟨c, ⟨hk', _⟩, _⟩)
    · exact h
    · exact absurd hk' hk

theorem mem_visit {v : Nat × Bool} (henter : ∀ c, d.Region v.1 c → d.Enters enter c) {i : Nat} :
    i ∈ d.visit enter entry v ↔ i ∈ entry ∨ (i, true) = v ∨
      ∃ c, d.Region v.1 c ∧ ¬ d.Covered entry c ∧ d.ByDefault c i := by
  obtain ⟨z, mark⟩ := v
  refine (wf.mem_passed_regions henter).trans ?_
  cases mark with
  | false => simp
  | true =>
      -- the regions of a state are as covered with it as without it
      have hcov : ∀ c, d.Region z c ∧ ¬ d.Covered (entry.insert z) c ∧ d.ByDefault c i ↔
          d.Region z c ∧ ¬ d.Covered entry c ∧ d.ByDefault c i := fun c =>
        and_congr_right fun hregion => by rw [wf.covered_insert_iff hregion.2.1]
      simp only [if_true, hcov, NodeSet.mem_insert, Prod.mk.injEq, and_true]
      rw [or_assoc, or_left_comm]

/-- A visit covers only regions that it enters itself, if what lies around it is covered. -/
theorem region_of_covered_visit {v v' : Nat × Bool} {c : Nat}
    (henter : ∀ c, d.Region v.1 c → d.Enters enter c)
    (hcov : ∀ c, (d.node c).isHistory = false → d.Within v.1 c → d.Covered entry c)
    (hcov' : ∀ c, (d.node c).isHistory = false → d.Within v'.1 c → d.Covered entry c)
    (hregion : d.Region v'.1 c) (hno : ¬ d.Covered entry c)
    (h : d.Covered (d.visit enter entry v) c) : d.Region v.1 c := by
  obtain ⟨s, hs, hwithin⟩ := h
  rcases (wf.mem_visit henter).mp hs with hs | rfl | ⟨c', hregion', hno', hdefault⟩
  · exact absurd ⟨s, hs, hwithin⟩ hno
  · exact absurd (hcov c hregion.2.2 hwithin) hno
  · rcases wf.within_total hwithin (wf.byDefault_within hdefault) with (heq | hbelow) | hbelow
    · rwa [heq]
    · -- the region would lie inside a region of the visit
      have hpw := (wf.below_iff_of_parent (wf.mem_children.mp hregion.2.1)).mp hbelow
      exact absurd (hcov' c' hregion'.2.2 hpw) hno'
    · have hpw := (wf.below_iff_of_parent (wf.mem_children.mp hregion'.2.1)).mp hbelow
      exact absurd (hcov c hregion.2.2 hpw) hno

/-- What visits add, in whatever order they are made: the states entered on the way, and the regions
not covered at the beginning. Each state visited must be covered with all around it. -/
theorem mem_foldl_visit {vs : List (Nat × Bool)}
    (henter : ∀ v ∈ vs, ∀ c, d.Region v.1 c → d.Enters enter c)
    (hcov : ∀ v ∈ vs, ∀ c, (d.node c).isHistory = false → d.Within v.1 c → d.Covered entry c)
    {i : Nat} : i ∈ vs.foldl (d.visit enter) entry ↔ i ∈ entry ∨ (i, true) ∈ vs ∨
      ∃ v ∈ vs, ∃ c, d.Region v.1 c ∧ ¬ d.Covered entry c ∧ d.ByDefault c i := by
  induction vs generalizing entry with
  | nil => simp
  | cons v rest ih =>
      have hmem := fun {i} => @mem_visit _ _ enter entry wf v (i := i)
        (henter v List.mem_cons_self)
      have hmono : ∀ {c}, d.Covered entry c → d.Covered (d.visit enter entry v) c := fun h =>
        h.mono fun s hs => hmem.mpr (.inl hs)
      -- a region that a visit has covered is one of the state visited
      have hnew : ∀ {v' c}, v' ∈ rest → d.Region v'.1 c → ¬ d.Covered entry c →
          d.Covered (d.visit enter entry v) c → d.Region v.1 c := fun hv' =>
        wf.region_of_covered_visit (henter v List.mem_cons_self) (hcov v List.mem_cons_self)
          (hcov _ (List.mem_cons_of_mem _ hv'))
      rw [List.foldl_cons, ih (fun v' hv' => henter v' (List.mem_cons_of_mem _ hv'))
        (fun v' hv' c hhist hw => hmono (hcov v' (List.mem_cons_of_mem _ hv') c hhist hw)),
        hmem, List.mem_cons, List.exists_mem_cons_iff]
      constructor
      · rintro ((h | h | h) | h | ⟨v', hv', c, hregion, hno, h⟩)
        · exact .inl h
        · exact .inr (.inl (.inl h))
        · exact .inr (.inr (.inl h))
        · exact .inr (.inl (.inr h))
        · exact .inr (.inr (.inr ⟨v', hv', c, hregion, fun h' => hno (hmono h'), h⟩))
      · rintro (h | (h | h) | h | ⟨v', hv', c, hregion, hno, h⟩)
        · exact .inl (.inl h)
        · exact .inl (.inr (.inl h))
        · exact .inr (.inl h)
        · exact .inl (.inr (.inr h))
        · by_cases hcov' : d.Covered (d.visit enter entry v) c
          · exact .inl (.inr (.inr ⟨c, hnew hv' hregion hno hcov', hno, h⟩))
          · exact .inr (.inr ⟨v', hv', c, hregion, hcov', h⟩)

/-! ## States that are no history -/

omit wf in
theorem defaultChild?_empty (n : StateNode L) : d.defaultChild? .empty n = n.initial := by
  have hfind : (n.children.find? fun c =>
      NodeSet.contains .empty c && !(d.node c).isHistory) = none := by
    rw [List.find?_eq_none]
    intro c _
    have : ¬ c ∈ NodeSet.empty := NodeSet.not_mem_empty c
    simp [this]
  unfold defaultChild?
  rw [hfind]

/-- What is by default in a state: the state, and what is by default in the children chosen. -/
theorem byDefault_iff {x i : Nat} : d.ByDefault x i ↔ i = x ∨ ∃ c ∈ (d.node x).children,
    d.Chosen .empty [] c (some x) ∧ d.ByDefault c i := by
  rw [ByDefault, wf.filled_some_iff]
  rfl

theorem children_eq_nil {x : Nat} (hx : x < d.nodes.size)
    (hk : (d.node x).kind ≠ .compound ∧ (d.node x).kind ≠ .parallel) :
    (d.node x).children = [] := by
  by_contra hne
  rcases (wf.children_ne_nil x hx).mp hne with h | h
  · exact hk.1 h
  · exact hk.2 h

section

variable {history : HistoryValue} {fuel x : Nat}
  (hchild : ∀ c ∈ (d.node x).children, (d.node c).isHistory = false →
    d.Enters (d.addState history fuel) c)
include hchild

theorem enters_parallel (hk : (d.node x).kind = .parallel) :
    d.Enters (d.addState history (fuel + 1)) x := by
  intro entry hno i
  rw [wf.byDefault_iff, addState, hk]
  simp only [wf.mem_fillRegions hchild, NodeSet.mem_insert, or_assoc]
  rw [or_left_comm]
  refine or_congr_right (or_congr_right ?_)
  constructor
  · rintro ⟨c, hc, hno, -, h⟩
    exact ⟨c, hc, .inr (.inl ⟨hk, hno⟩), h⟩
  · rintro ⟨c, hc, ht | ⟨-, hhist⟩ | ⟨hcomp, -⟩, h⟩
    · exact absurd ht (not_targeted_nil c)
    · exact ⟨c, hc, hhist, wf.not_covered_insert hc hno, h⟩
    · rw [hk] at hcomp
      cases hcomp

theorem enters_compound (hx : x < d.nodes.size) (hk : (d.node x).kind = .compound) :
    d.Enters (d.addState history (fuel + 1)) x := by
  intro entry hno i
  obtain ⟨c, hc, hinitial, hhist⟩ := wf.initial x hx hk
  -- nothing lies between a state and its child
  have habove : ∀ entry, d.addAbove (d.addState history fuel) (some x) entry c = entry := by
    intro entry
    rw [addAbove, wf.properAncestors_cons (some x) (wf.mem_children.mp hc)]
    simp [hk]
  rw [wf.byDefault_iff, addState, hk]
  simp only [hinitial, habove]
  rw [hchild c hc hhist _ (wf.not_covered_insert hc hno), NodeSet.mem_insert, or_assoc,
    or_left_comm]
  refine or_congr_right (or_congr_right ⟨fun h => ?_, ?_⟩)
  · exact ⟨c, hc, .inr (.inr ⟨hk, by simp, by rw [defaultChild?_empty, hinitial]⟩), h⟩
  · rintro ⟨c', hc', ht | ⟨hpar, -⟩ | ⟨-, -, hdefault⟩, h⟩
    · exact absurd ht (not_targeted_nil c')
    · rw [hk] at hpar
      cases hpar
    · rw [defaultChild?_empty, hinitial] at hdefault
      cases hdefault
      exact h

end

/-- Entering a state from an empty subtree adds what is there by default. -/
theorem enters_addState {history : HistoryValue} {fuel x : Nat} (hx : x < d.nodes.size)
    (hhist : (d.node x).isHistory = false) (hfuel : d.nodes.size ≤ x + fuel) :
    d.Enters (d.addState history fuel) x := by
  induction fuel generalizing x with
  | zero => omega
  | succ fuel ih =>
      -- children come later in the order of the document, so that less fuel is enough for them
      have hchild : ∀ c ∈ (d.node x).children, (d.node c).isHistory = false →
          d.Enters (d.addState history fuel) c := by
        intro c hc hhist
        have hlt := wf.lt_of_below (wf.child_below hc)
        exact ih (wf.child_lt hc) hhist (by omega)
      cases hk : (d.node x).kind with
      | history => simp [StateNode.isHistory, hk] at hhist
      | atomic =>
          intro entry _ i
          rw [wf.byDefault_iff, addState, hk]
          simp [wf.children_eq_nil hx (by simp [hk]), or_comm]
      | final =>
          intro entry _ i
          rw [wf.byDefault_iff, addState, hk]
          simp [wf.children_eq_nil hx (by simp [hk]), or_comm]
      | parallel => exact wf.enters_parallel hchild hk
      | compound => exact wf.enters_compound hchild hx hk

/-! ## Targets and visits -/

theorem mem_foldl_enter (henter : ∀ c < d.nodes.size, (d.node c).isHistory = false →
    d.Enters enter c) {targets : List Nat} (hlt : ∀ t ∈ targets, t < d.nodes.size)
    (hhist : ∀ t ∈ targets, (d.node t).isHistory = false) (hscat : d.Scattered targets)
    (hno : ∀ t ∈ targets, ¬ d.Covered entry t) {i : Nat} :
    i ∈ targets.foldl enter entry ↔ i ∈ entry ∨ ∃ t ∈ targets, d.ByDefault t i := by
  induction targets generalizing entry with
  | nil => simp
  | cons t rest ih =>
      obtain ⟨hfirst, hrest⟩ := List.pairwise_cons.mp hscat
      have hmem := henter t (hlt t List.mem_cons_self) (hhist t List.mem_cons_self) entry
        (hno t List.mem_cons_self)
      rw [List.foldl_cons, ih (fun t' h => hlt t' (List.mem_cons_of_mem _ h))
        (fun t' h => hhist t' (List.mem_cons_of_mem _ h)) hrest, hmem, List.exists_mem_cons_iff,
        or_assoc]
      rintro t' ht' ⟨s, hs, hwithin⟩
      rcases (hmem s).mp hs with hs | hs
      · exact hno t' (List.mem_cons_of_mem _ ht') ⟨s, hs, hwithin⟩
      · rcases wf.within_total hwithin (wf.byDefault_within hs) with h | h
        · exact (hfirst t' ht').2 h
        · exact (hfirst t' ht').1 (.inr h)

/-- The targets and the visits that begin within these, in one formula. -/
theorem mem_targets_visits (henter : ∀ c < d.nodes.size, (d.node c).isHistory = false →
    d.Enters enter c) {targets : List Nat} (hlt : ∀ t ∈ targets, t < d.nodes.size)
    (hhist : ∀ t ∈ targets, (d.node t).isHistory = false) (hscat : d.Scattered targets)
    (hno : ∀ t ∈ targets, ¬ d.Covered entry t) {vs : List (Nat × Bool)}
    (hvs : ∀ v ∈ vs, d.Targeted targets v.1) {i : Nat} :
    i ∈ vs.foldl (d.visit enter) (targets.foldl enter entry) ↔
      d.Visited entry targets vs i := by
  have hmem := fun {i} =>
    wf.mem_foldl_enter henter hlt hhist hscat hno (i := i)
  rw [wf.mem_foldl_visit, hmem, Visited, Opened, or_assoc]
  · refine or_congr_right (or_congr_right (or_congr_right ?_))
    have hcov : ∀ c, ¬ d.Covered (targets.foldl enter entry) c ↔
        ∀ s, (s ∈ entry ∨ ∃ t ∈ targets, d.ByDefault t s) → ¬ d.Within s c := by
      intro c
      simp only [Covered, hmem, not_exists, not_and]
    simp only [hcov]
  · intro v _ c hregion
    exact henter c (wf.child_lt hregion.2.1) hregion.2.2
  · rintro v hv c _ hwithin
    obtain ⟨t, ht, htv⟩ := hvs v hv
    exact ⟨t, hmem.mpr (.inr ⟨t, ht, .inl rfl⟩), wf.within_trans htv hwithin⟩

/-! ## Visits fill the subtree -/

theorem byDefault_step {x p c : Nat} (hp : d.ByDefault x p) (hc : c ∈ (d.node p).children)
    (hchosen : d.Chosen .empty [] c (some p)) : d.ByDefault x c := by
  rcases hp with rfl | hp
  · exact .inr ((wf.filled_child_iff hc (.inl rfl)).mpr hchosen)
  · exact .inr ((wf.filled_child_iff hc (.inr hp)).mpr hchosen)

section

variable {top : Option Nat} {targets : List Nat} {vs : List (Nat × Bool)}
  (hin : ∀ t ∈ targets, t < d.nodes.size ∧ ∀ a, top = some a → d.Within t a)
  (hne : targets ≠ []) (hscat : ∀ t ∈ targets, ∀ t' ∈ targets, ¬ d.Below t' t)
  (hvs : ∀ v ∈ vs, d.Targeted targets v.1)
  (habove : ∀ c, d.Under top c → ∀ t ∈ targets, d.Below t c → (c, true) ∈ vs)
  (htop : ∀ a, top = some a → (a, false) ∈ vs) (hfresh : ∀ s ∈ entry, ¬ d.Under top s)
include hin

/-- What is by default in a target is filled around the targets. -/
theorem filled_of_byDefault (hscat : ∀ t ∈ targets, ∀ t' ∈ targets, ¬ d.Below t' t) {t i : Nat}
    (ht : t ∈ targets) (hi : d.Under top i) (hdefault : d.ByDefault t i) :
    d.Filled .empty targets top i := by
  have hbelow : ∀ {i}, d.Filled .empty [] (some t) i → d.Filled .empty targets (some t) i :=
    (wf.filled_of_untargeted fun t' ht' => hscat t ht t' ht').mpr
  by_cases htop : d.Under top t
  · have htf : d.Filled .empty targets top t := wf.filled_of_targeted ⟨t, ht, .inl rfl⟩ htop
    rcases hdefault with rfl | hdefault
    · exact htf
    · exact htf.trans (hbelow hdefault)
  · -- the target is the top itself
    cases top with
    | none => exact absurd (hin t ht).1 htop
    | some a =>
        rcases (hin t ht).2 a rfl with rfl | h
        · rcases hdefault with rfl | hdefault
          · exact absurd hi htop
          · exact hbelow hdefault
        · exact absurd h htop

/-- A region without a target that has a state under the top lies under it. -/
theorem region_under {t c i : Nat} (ht : t ∈ targets) (hi : d.Under top i)
    (hc : c < d.nodes.size) (hnot : ¬ d.Within t c) (hwithin : d.Within i c) : d.Under top c := by
  cases top with
  | none => exact hc
  | some a =>
      have hta := (hin t ht).2 a rfl
      have hia : d.Within i a := .inr hi
      rcases wf.within_total hwithin hia with (heq | h) | h
      · exact absurd (heq ▸ hta) hnot
      · exact h
      · exact absurd (wf.within_trans hta (.inr h)) hnot

/-- What is in a region that a visit finds empty is filled around the targets. -/
theorem filled_of_opened (hvs : ∀ v ∈ vs, d.Targeted targets v.1) {i : Nat} (hi : d.Under top i)
    (h : d.Opened entry targets vs i) : d.Filled .empty targets top i := by
  obtain ⟨v, hv, c, ⟨hk, hc, hhist⟩, hno, hdefault⟩ := h
  obtain ⟨t, ht, htv⟩ := hvs v hv
  have hnot : ∀ t ∈ targets, ¬ d.Within t c := fun t ht => hno t (.inr ⟨t, ht, .inl rfl⟩)
  have hunder : d.Under top c :=
    wf.region_under hin ht hi (wf.child_lt hc) (hnot t ht) (wf.byDefault_within hdefault)
  have hcf : d.Filled .empty targets top c := by
    refine (wf.filled_child_iff hc ?_).mpr (.inr (.inl ⟨hk, hhist⟩))
    rcases (wf.under_iff_parent (wf.child_lt hc)).mp hunder with hp | ⟨p, hp, hpu⟩
    · exact .inl (by rw [← hp, wf.mem_children.mp hc])
    · rw [wf.mem_children.mp hc] at hp
      cases hp
      exact .inr (wf.filled_of_targeted ⟨t, ht, htv⟩ hpu)
  rcases hdefault with rfl | hdefault
  · exact hcf
  · exact hcf.trans ((wf.filled_of_untargeted fun t' ht' h => hnot t' ht' (.inr h)).mpr hdefault)

theorem filled_of_visited (hscat : ∀ t ∈ targets, ∀ t' ∈ targets, ¬ d.Below t' t)
    (hvs : ∀ v ∈ vs, d.Targeted targets v.1) (hfresh : ∀ s ∈ entry, ¬ d.Under top s) {i : Nat}
    (hi : d.Under top i) (h : d.Visited entry targets vs i) :
    d.Filled .empty targets top i := by
  rcases h with h | ⟨t, ht, hdefault⟩ | h | h
  · exact absurd hi (hfresh i h)
  · exact wf.filled_of_byDefault hin hscat ht hi hdefault
  · exact wf.filled_of_targeted (hvs _ h) hi
  · exact wf.filled_of_opened hin hvs hi h

omit wf in
include hne habove htop in
/-- A state on the way from a target to the top is a target, or it is visited. -/
theorem visited_on_way {p : Nat} (hp : top = some p ∨ d.Under top p ∧ d.Targeted targets p) :
    (∃ t ∈ targets, d.ByDefault t p) ∨ (∃ b, (p, b) ∈ vs) ∧ ∃ t ∈ targets, d.Below t p := by
  rcases hp with heq | ⟨hpu, t, ht, rfl | h⟩
  · obtain ⟨t, ht⟩ := List.exists_mem_of_ne_nil targets hne
    rcases (hin t ht).2 p heq with rfl | h
    · exact .inl ⟨t, ht, .inl rfl⟩
    · exact .inr ⟨⟨false, htop p heq⟩, t, ht, h⟩
  · exact .inl ⟨t, ht, .inl rfl⟩
  · exact .inr ⟨⟨true, habove p hpu t ht h⟩, t, ht, h⟩

omit hin in
include hfresh in
/-- A region of a state on the way down is covered by a target that it lies in, or else entered. -/
theorem opened_region {p c : Nat} {b : Bool} (hb : (p, b) ∈ vs) (hregion : d.Region p c)
    (hcu : d.Under top c) (htarget : ¬ d.Targeted targets c) :
    (∃ t ∈ targets, d.ByDefault t c) ∨ d.Opened entry targets vs c := by
  by_cases hcov : ∃ t ∈ targets, ∃ s, d.ByDefault t s ∧ d.Within s c
  · obtain ⟨t, ht, s, hs, hwithin⟩ := hcov
    left
    rcases wf.within_total (wf.byDefault_within hs) hwithin with h | h
    · exact absurd ⟨t, ht, h⟩ htarget
    · refine ⟨t, ht, .inr ?_⟩
      rcases hs with rfl | hs
      · exact absurd ⟨s, ht, hwithin⟩ htarget
      · rcases hwithin with rfl | hwithin
        · exact hs
        · have hunder : d.Under (some t) c := h
          exact (wf.filled_split hunder hwithin hs).1
  · refine .inr ⟨(p, b), hb, c, hregion, ?_, .inl rfl⟩
    rintro s (hs | ⟨t, ht, hs⟩) hwithin
    · refine hfresh s hs ?_
      rcases hwithin with rfl | hwithin
      · exact hcu
      · exact wf.under_of_below hwithin hcu
    · exact hcov ⟨t, ht, s, hs, hwithin⟩

include hne habove htop hfresh

/-- One step down in a filled subtree. -/
theorem visited_step {p c : Nat} (hc : c ∈ (d.node p).children)
    (hchosen : d.Chosen .empty targets c (some p)) (hcu : d.Under top c)
    (hp : top = some p ∨ d.Under top p ∧ d.Targeted targets p ∨
      (∃ t ∈ targets, d.ByDefault t p) ∨ d.Opened entry targets vs p) :
    d.Targeted targets c ∨ (∃ t ∈ targets, d.ByDefault t c) ∨ d.Opened entry targets vs c := by
  by_cases htarget : d.Targeted targets c
  · exact .inl htarget
  right
  -- not around a target, so it is chosen as it would be by default
  have hnil : d.Chosen .empty [] c (some p) := by
    rcases hchosen with h | h | ⟨hk, _, h⟩
    · exact absurd h htarget
    · exact .inr (.inl h)
    · exact .inr (.inr ⟨hk, by simp, h⟩)
  have hp : ((∃ t ∈ targets, d.ByDefault t p) ∨
      (∃ b, (p, b) ∈ vs) ∧ ∃ t ∈ targets, d.Below t p) ∨ d.Opened entry targets vs p := by
    rcases hp with h | h | h | h
    · exact .inl (visited_on_way hin hne habove htop (.inl h))
    · exact .inl (visited_on_way hin hne habove htop (.inr h))
    · exact .inl (.inl h)
    · exact .inr h
  rcases hp with (⟨t, ht, h⟩ | ⟨⟨b, hb⟩, t, ht, hbelow⟩) | ⟨v, hv, c', hregion, hno, h⟩
  · exact .inl ⟨t, ht, wf.byDefault_step h hc hnil⟩
  · rcases hchosen with h | ⟨hk, hhist⟩ | ⟨_, hno, _⟩
    · exact absurd h htarget
    · exact wf.opened_region hfresh hb ⟨hk, hc, hhist⟩ hcu htarget
    · obtain ⟨c', hc', hwithin⟩ := wf.exists_child hbelow
      exact absurd ⟨t, ht, hwithin⟩ (hno c' hc')
  · exact .inr ⟨v, hv, c', hregion, hno, wf.byDefault_step h hc hnil⟩

/-- Where the subtree was empty before, targets and the visits from these up to the top leave what is
filled around the targets. -/
theorem visited_iff_filled (hscat : ∀ t ∈ targets, ∀ t' ∈ targets, ¬ d.Below t' t)
    (hvs : ∀ v ∈ vs, d.Targeted targets v.1) {i : Nat} (hi : d.Under top i) :
    d.Visited entry targets vs i ↔ d.Filled .empty targets top i := by
  refine ⟨wf.filled_of_visited hin hscat hvs hfresh hi, fun h => ?_⟩
  -- induction from the top down along what is filled
  have hall : d.Targeted targets i ∨ (∃ t ∈ targets, d.ByDefault t i) ∨
      d.Opened entry targets vs i := by
    clear hi
    induction h with
    | @first c hlt hp hchosen =>
        cases top with
        | none =>
            obtain ⟨t, rest, rfl⟩ := List.exists_cons_of_ne_nil hne
            rw [wf.parent_eq_none hlt hp]
            exact .inl ⟨t, List.mem_cons_self, wf.within_root (hin t List.mem_cons_self).1⟩
        | some a =>
            have hc := wf.mem_children.mpr hp
            exact wf.visited_step hin hne habove htop hfresh hc hchosen (wf.child_below hc)
              (.inl rfl)
    | next hfilled hp hchosen ih =>
        have hc := wf.mem_children.mpr hp
        have hpu := wf.filled_under hfilled
        refine wf.visited_step hin hne habove htop hfresh hc hchosen
          (wf.under_of_below (wf.child_below hc) hpu) (.inr ?_)
        exact ih.imp_left fun h => ⟨hpu, h⟩
  rcases hall with ⟨t, ht, rfl | hbelow⟩ | h | h
  · exact .inr (.inl ⟨t, ht, .inl rfl⟩)
  · exact .inr (.inr (.inl (habove i hi t ht hbelow)))
  · exact .inr (.inl h)
  · exact .inr (.inr (.inr h))

end

end WellFormed

end Statechart.Definition
