import Mathlib.Data.List.Find
import Statechart.Proofs.Microstep
import Statechart.Proofs.Recall

/-!
# Microsteps of confined transitions

What keeps a configuration possible. A step of selected transitions does so if each of them enters
nothing beside its domain (`Contained`), whatever its history states have recorded. The main result
is `possible_microstep`. On the way one needs that a transition has the same domain before and
after its history states record (`domain_recordHistory`), and that transitions taken together have
domains that lie apart (`independent_of_contained`).
-/

namespace Statechart.Definition

variable {L : Type} (d : Definition L)

/-- Every transition has at most one target, and the defaults of history states are settled. -/
structure Definite : Prop where
  single : ∀ t < d.transitions.size, (d.transition t).targets.length ≤ 1
  settled : d.SettledHistory

/-- Whatever history states have recorded, a transition enters nothing beside its domain. -/
def Contained : Prop :=
  ∀ t < d.transitions.size, ∀ history, d.Recordable history → d.Confined history (d.transition t)

variable {d} {config : Configuration} {before after : HistoryValue} {t : Transition L}

/-- Transitions without targets enter nothing. -/
theorem entrySet_targetless {history : HistoryValue} {ts : List (Transition L)}
    (hless : ∀ t ∈ ts, t.isTargetless = true) : d.entrySet history ts = .empty := by
  induction ts with
  | nil => rfl
  | cons t rest ih =>
      rw [entrySet, List.foldl_cons, addEntered_of_targetless (hless t List.mem_cons_self)]
      exact ih fun t' ht' => hless t' (List.mem_cons_of_mem _ ht')

namespace WellFormed

variable (wf : d.WellFormed)
include wf

/-! ## Domains -/

omit wf in
theorem domain_eq_of_iff (hne : d.effectiveTargets before t ≠ [])
    (hne' : d.effectiveTargets after t ≠ [])
    (hin : t.reenter = false → ((∀ s ∈ d.effectiveTargets before t, d.Within s t.source) ↔
      ∀ s ∈ d.effectiveTargets after t, d.Within s t.source))
    (hall : ∀ a ∈ d.properAncestors t.source none,
      ((∀ s ∈ d.effectiveTargets before t, d.Below s a) ↔
        ∀ s ∈ d.effectiveTargets after t, d.Below s a)) :
    d.domain before t = d.domain after t := by
  rcases inside_or_outside d before t with ⟨hreenter, h⟩ | h
  · rw [domain_of_inside hne hreenter h,
      domain_of_inside hne' hreenter ((hin hreenter).mp h)]
  · have h' : t.reenter = true ∨ ∃ s ∈ d.effectiveTargets after t, ¬ d.Within s t.source := by
      rcases inside_or_outside d after t with ⟨hreenter, h'⟩ | h'
      · rcases h with h | ⟨s, hs, hno⟩
        · rw [hreenter] at h
          cases h
        · exact absurd ((hin hreenter).mpr h' s hs) hno
      · exact h'
    rw [domain_of_outside hne h, domain_of_outside hne' h']
    refine List.find?_congr fun a ha => ?_
    rw [Bool.eq_iff_iff]
    simpa using hall a ha

/-- Where a transition leads below a state that its source does not lie in, it does not matter where
exactly. -/
theorem domain_eq_of_below {p : Nat} (hne : d.effectiveTargets before t ≠ [])
    (hne' : d.effectiveTargets after t ≠ [])
    (hbelow : ∀ s ∈ d.effectiveTargets before t, d.Below s p)
    (hbelow' : ∀ s ∈ d.effectiveTargets after t, d.Below s p)
    (hsource : ¬ d.Within t.source p ∨ t.source = p ∧ t.reenter = true) :
    d.domain before t = d.domain after t := by
  -- both times it comes down to where `p` lies
  have hin : ∀ targets : List Nat, targets ≠ [] → (∀ s ∈ targets, d.Below s p) →
      t.reenter = false → ((∀ s ∈ targets, d.Within s t.source) ↔ d.Below p t.source) := by
    intro targets hne hbelow hreenter
    have hout : ¬ d.Within t.source p := hsource.resolve_right fun h => by simp [hreenter] at h
    constructor
    · intro h
      obtain ⟨s, hs⟩ := List.exists_mem_of_ne_nil targets hne
      exact (wf.within_total (h s hs) (.inr (hbelow s hs))).resolve_left hout
    · exact fun h s hs => .inr (wf.below_trans (hbelow s hs) h)
  have hall : ∀ targets : List Nat, targets ≠ [] → (∀ s ∈ targets, d.Below s p) →
      ∀ a, d.Below t.source a → ((∀ s ∈ targets, d.Below s a) ↔ d.Within p a) := by
    intro targets hne hbelow a ha
    refine ⟨fun h => ?_, fun h s hs => wf.below_of_below_within (hbelow s hs) h⟩
    obtain ⟨s, hs⟩ := List.exists_mem_of_ne_nil targets hne
    rcases wf.below_total (hbelow s hs) (h s hs) with hw | hap
    · exact hw
    · rcases hsource with hout | ⟨rfl, _⟩
      · exact absurd (.inr (wf.below_trans ha hap)) hout
      · exact .inr ha
  refine domain_eq_of_iff hne hne' (fun hreenter => ?_) fun a ha => ?_
  · exact (hin _ hne hbelow hreenter).trans (hin _ hne' hbelow' hreenter).symm
  · have ha' := wf.mem_properAncestors_none.mp ha
    exact (hall _ hne hbelow a ha').trans (hall _ hne' hbelow' a ha').symm

/-- Outside, the domain is the nearest state around the source with all targets below it. -/
theorem domain_nearest {a : Nat} (hne : d.effectiveTargets before t ≠ [])
    (hout : t.reenter = true ∨ ∃ s ∈ d.effectiveTargets before t, ¬ d.Within s t.source)
    (ha : d.Below t.source a) (hall : ∀ s ∈ d.effectiveTargets before t, d.Below s a) :
    ∃ b, d.domain before t = some b ∧ d.Within b a := by
  rw [domain_of_outside hne hout]
  have hmem := wf.mem_properAncestors_none.mpr ha
  have hpred : (d.effectiveTargets before t).all (d.isDescendant · a) = true := by simpa using hall
  cases hfind : (d.properAncestors t.source none).find? fun a =>
      (d.effectiveTargets before t).all (d.isDescendant · a) with
  | none => exact absurd hpred (List.find?_eq_none.mp hfind a hmem)
  | some b =>
      refine ⟨b, rfl, ?_⟩
      obtain ⟨-, nearer, further, hlist, hno⟩ := List.find?_eq_some_iff_append.mp hfind
      have hpairs := wf.pairwise_properAncestors (j := t.source)
      rw [hlist] at hmem hpairs
      rcases List.mem_append.mp hmem with h | h
      · have hfailed := hno a h
        rw [hpred] at hfailed
        cases hfailed
      · rcases List.mem_cons.mp h with rfl | h
        · exact .inl rfl
        · exact .inr ((List.pairwise_cons.mp (List.pairwise_append.mp hpairs).2.1).1 a h)

/-! ## Where transitions lead -/

/-- A transition with one target lands, and what it lands on is what the target stands for. -/
theorem exists_landing (hset : d.SettledHistory) {history : HistoryValue}
    (hrec : d.Recordable history) {x : Nat} (htargets : t.targets = [x])
    (hx : x < d.nodes.size) : ∃ targets vs, d.Landing history t targets vs ∧
      d.StandsFor x targets vs ∧ d.Leads history (d.nodes.size + 1) x targets vs := by
  have hne : d.addTarget [] (d.nodes.size + 1) [] x ≠ [] := by
    cases hhist : (d.node x).isHistory with
    | false => simp [addTarget, hhist, addNew]
    | true => exact hset.settles x hhist
  obtain ⟨targets, vs, hleads⟩ := wf.exists_leads hset hrec hne
  have hstands := wf.standsFor_of_leads hset hrec hx hleads
  exact ⟨targets, vs, ⟨⟨x, htargets, hleads⟩, hstands.agreeing.lt, hstands.agreeing.history,
    hstands.ne_nil, hstands.scattered, hstands.visits⟩, hstands, hleads⟩

/-- Plain transitions are confined. -/
theorem contained_of_plain (hplain : ∀ t < d.transitions.size, d.Plain (d.transition t)) :
    d.Contained := by
  intro t ht history _
  rcases hplain t ht with hnil | ⟨x, haim⟩
  · intro i hi
    rw [addEntered_of_targetless (by simp [Transition.isTargetless, hnil])] at hi
    exact absurd hi (NodeSet.not_mem_empty i)
  · exact wf.confined_state haim.targets_eq (wf.target_lt t ht x (by simp [haim.targets_eq]))
      haim.history haim.self

omit wf in
theorem definite_of_plain (hplain : ∀ t < d.transitions.size, d.Plain (d.transition t))
    (hnone : ∀ h, (d.node h).isHistory = false) : d.Definite where
  single t ht := by
    rcases hplain t ht with hnil | ⟨x, haim⟩
    · simp [hnil]
    · simp [haim.targets_eq]
  settled :=
    { single := fun h hh => by rw [hnone] at hh; cases hh
      below := fun h p hh => by rw [hnone] at hh; cases hh
      settles := fun h hh => by rw [hnone] at hh; cases hh }

/-! ## Transitions that leave nothing -/

/-- From a leaf to itself a confined transition passes no region beside that of the leaf. -/
theorem within_region_of_confined {history : HistoryValue} {targets : List Nat}
    {vs : List (Nat × Bool)} (hland : d.Landing history t targets vs)
    (hconf : d.Confined history t) {a : Nat} (hdom : d.domain history t = some a)
    (hatomic : (d.node a).isAtomic = true) {z c : Nat} (hz : d.Below a z)
    (hregion : d.Region z c) : d.Within a c := by
  have hnone := wf.not_below_of_atomic hatomic
  have hall : ∀ s ∈ targets, s = a := fun s hs =>
    (hland.within_domain wf hs hdom).resolve_right (hnone s)
  have hself : a ∈ targets := by
    obtain ⟨s, hs⟩ := List.exists_mem_of_ne_nil targets hland.ne_nil
    exact hall s hs ▸ hs
  by_contra hno
  -- the climb does not find the leaf above itself, so it goes up to the root
  have hvisit : (z, true) ∈ targets.flatMap (d.visits (d.domain history t)) := by
    refine List.mem_flatMap.mpr ⟨a, hself, List.mem_append_left _ (List.mem_map.mpr ⟨z, ?_, rfl⟩)⟩
    refine (wf.mem_properAncestors _).mpr ⟨hz, fun b hb hab => ?_⟩
    rw [hdom] at hb
    cases hb
    exact absurd hab (hnone _)
  have hentered : c ∈ d.addEntered history .empty t := by
    refine (hland.mem_addEntered_empty wf).mpr (.inr (.inr (.inr ⟨(z, true),
      List.mem_append_right _ hvisit, c, hregion, ?_, .inl rfl⟩)))
    rintro s (hs | ⟨s', hs', hs⟩) hsc
    · exact NodeSet.not_mem_empty s hs
    · rw [hall s' hs'] at hs
      rcases hs with rfl | hs
      · exact hno hsc
      · exact hnone s (wf.filled_under hs)
  exact (hconf c hentered a hdom).elim (hnone c) hno

/-- Where every region on the way to an active leaf contains it, everything active does. -/
theorem within_of_regions (hconfig : d.Possible config) {a : Nat} (hact : a ∈ config)
    (hatomic : (d.node a).isAtomic = true)
    (honly : ∀ z c, d.Below a z → d.Region z c → d.Within a c) {i : Nat} (hi : i ∈ config) :
    d.Within a i := by
  induction i using Nat.strongRecOn with
  | _ i ih =>
      cases hp : (d.node i).parent with
      | none =>
          rw [wf.parent_eq_none (hconfig.lt i hi) hp]
          exact wf.within_root (hconfig.lt a hact)
      | some p =>
          have hpact := hconfig.parent i hi p hp
          have hchild := wf.mem_children.mpr hp
          rcases ih p (wf.parent_lt hp).1 hpact with rfl | hap
          · exact absurd (wf.child_below hchild) (wf.not_below_of_atomic hatomic i)
          · rcases wf.kind_of_child hchild with hk | hk
            · obtain ⟨c, hc, hac⟩ := wf.exists_child hap
              obtain ⟨c', -, -, hunique⟩ := hconfig.compound p hpact hk
              have hcact := wf.mem_of_within hconfig hac hact
              rw [hunique i hchild hi, ← hunique c hc hcact]
              exact hac
            · exact honly p i hap ⟨hk, hchild, hconfig.history i hi⟩

/-- A confined transition that leaves nothing goes from the only active leaf to itself. -/
theorem leaves_or_alone (hreg : d.HasRegions) {history : HistoryValue}
    (hconfig : d.Possible config) (hsource : t.source ∈ config) {targets : List Nat}
    {vs : List (Nat × Bool)} (hland : d.Landing history t targets vs)
    (hconf : d.Confined history t) :
    (∃ i ∈ config, d.Under (d.domain history t) i) ∨ ∀ leaf ∈ d.leaves config, leaf = t.source := by
  cases hdom : d.domain history t with
  | none => exact .inl ⟨0, hconfig.root, wf.size_pos⟩
  | some a =>
      have hwithin := (wf.domain_spec hdom).1
      have hact := wf.mem_of_within hconfig hwithin hsource
      cases hatomic : (d.node a).isAtomic with
      | false =>
          obtain ⟨c, hc, hcact⟩ := exists_active_child hreg hconfig hact hatomic
          exact .inl ⟨c, hcact, wf.child_below hc⟩
      | true =>
          have ha : t.source = a := hwithin.resolve_right (wf.not_below_of_atomic hatomic _)
          refine .inr fun leaf hleaf => ?_
          obtain ⟨hmem, hlatomic⟩ := List.mem_filter.mp hleaf
          have hin := wf.within_of_regions hconfig hact hatomic
            (fun z c => wf.within_region_of_confined hland hconf hdom hatomic)
            ((NodeSet.mem_toList _ _).mp hmem)
          rw [ha]
          exact (hin.resolve_right (wf.not_below_of_atomic hlatomic a)).symm

/-! ## Transitions selected together -/

section

variable {s : Situation} {ts : List Nat} (hconfig : d.Possible s.config)
  (hsel : d.Selection s ts) (hdef : d.Definite) (hrec : d.Recordable s.history)
include hsel

omit wf in
/-- No state is left by two selected transitions. -/
theorem disjoint_of_selection {k k' : Nat} (hk : k ∈ ts) (hk' : k' ∈ ts) (hne : k ≠ k') (i : Nat) :
    ¬ (i ∈ d.exitSet s.config s.history (d.transition k) ∧
      i ∈ d.exitSet s.config s.history (d.transition k')) := by
  have hsym : Std.Symm fun k k' => ∀ i, ¬ (i ∈ d.exitSet s.config s.history (d.transition k) ∧
      i ∈ d.exitSet s.config s.history (d.transition k')) := ⟨fun _ _ h i hi => h i hi.symm⟩
  exact hsel.disjoint.forall hk hk' hne i

include hdef

/-- A selected transition that has a target, with all that is known of it. -/
theorem selected_spec {k : Nat} (hk : k ∈ ts) (hless : (d.transition k).isTargetless = false)
    {history : HistoryValue} (hrec : d.Recordable history) :
    ∃ x targets vs, x < d.nodes.size ∧ d.Landing history (d.transition k) targets vs ∧
      d.StandsFor x targets vs ∧ d.Leads history (d.nodes.size + 1) x targets vs ∧
        (d.transition k).targets = [x] := by
  have hlt := hsel.lt k hk
  obtain ⟨x, hx⟩ : ∃ x, (d.transition k).targets = [x] := by
    have hsingle := hdef.single k hlt
    match h : (d.transition k).targets, hsingle with
    | [], _ => simp [Transition.isTargetless, h] at hless
    | [x], _ => exact ⟨x, rfl⟩
  have hxlt := wf.target_lt k hlt x (by simp [hx])
  obtain ⟨targets, vs, hland, hstands, hleads⟩ := wf.exists_landing hdef.settled hrec hx hxlt
  exact ⟨x, targets, vs, hxlt, hland, hstands, hleads, hx⟩

include hconfig hrec

/-- Unless a selected transition leaves something, it is the only one. -/
theorem leaves_or_only (hcont : d.Contained) {k : Nat} (hk : k ∈ ts)
    (hless : (d.transition k).isTargetless = false) :
    (∃ i ∈ s.config, d.Under (d.domain s.history (d.transition k)) i) ∨ ∀ k' ∈ ts, k' = k := by
  obtain ⟨x, targets, vs, -, hland, -⟩ := wf.selected_spec hsel hdef hk hless hrec
  refine (wf.leaves_or_alone (wf.hasRegions hdef.settled) hconfig
    (wf.source_mem hconfig hsel hk) hland
    (hcont k (hsel.lt k hk) _ hrec)).imp_right fun halone k' hk' => ?_
  -- the only leaf picks one transition
  obtain ⟨pick, hpick⟩ := hsel.picked
  obtain ⟨leaf, hleaf, hp, -⟩ := hpick k hk
  obtain ⟨leaf', hleaf', hp', -⟩ := hpick k' hk'
  rw [halone leaf hleaf] at hp
  rw [halone leaf' hleaf', hp] at hp'
  exact (Option.some.inj hp').symm

variable (hleave : ∀ k ∈ ts, (d.transition k).isTargetless = false →
  (∃ i ∈ s.config, d.Under (d.domain s.history (d.transition k)) i) ∨ ∀ k' ∈ ts, k' = k)
include hleave

omit hdef hrec in
/-- The source of a selected transition with targets below it is left by nobody but this transition,
and by this one only if it is reentered. -/
theorem not_exited_of_below {k p r : Nat} (hk : k ∈ ts) (hr : r ∈ ts)
    (hless : (d.transition k).isTargetless = false)
    (hp : p ∈ d.exitSet s.config s.history (d.transition r))
    (hne : d.effectiveTargets s.history (d.transition k) ≠ [])
    (hbelow : ∀ x ∈ d.effectiveTargets s.history (d.transition k), d.Below x p) :
    ¬ d.Within (d.transition k).source p ∨
      (d.transition k).source = p ∧ (d.transition k).reenter = true := by
  obtain ⟨hrless, hpact, hpu⟩ := of_mem_exitSet hconfig hp
  have hsource := wf.source_mem hconfig hsel hk
  by_contra hno
  obtain ⟨hwithin, hself⟩ : d.Within (d.transition k).source p ∧
      ((d.transition k).source = p → (d.transition k).reenter = false) := by
    simpa using hno
  by_cases hkr : r = k
  · subst hkr
    rcases inside_or_outside d s.history (d.transition r) with ⟨hreenter, hin⟩ | hout
    · -- an internal transition does not leave its source
      rw [domain_of_inside hne hreenter hin] at hpu
      exact wf.not_below_self p (wf.below_of_below_within hpu hwithin)
    · rcases hwithin with heq | hsp
      · rcases hout with hreenter | ⟨x, hx, hxs⟩
        · rw [hself heq] at hreenter
          cases hreenter
        · rw [heq] at hxs
          exact hxs (.inr (hbelow x hx))
      · -- the state lies around source and targets, so the domain lies in it
        obtain ⟨b, hb, hbp⟩ := wf.domain_nearest hne hout hsp hbelow
        rw [hb] at hpu
        exact wf.not_below_self p (wf.below_of_below_within hpu hbp)
  · -- the source is left by the other transition, so this one leaves nothing
    have hapart := disjoint_of_selection hsel hr hk hkr
    have hleft : ∀ i ∈ s.config, d.Within i (d.transition k).source →
        ¬ d.Under (d.domain s.history (d.transition k)) i := by
      intro i hi his hu
      have hip : d.Under (d.domain s.history (d.transition r)) i := by
        rcases wf.within_trans his hwithin with rfl | h
        · exact hpu
        · exact wf.under_of_below h hpu
      exact hapart i ⟨(mem_exitSet hconfig hrless).mpr ⟨hi, hip⟩,
        (mem_exitSet hconfig hless).mpr ⟨hi, hu⟩⟩
    refine (hleave k hk hless).elim ?_ fun h => hkr (h r hr)
    rintro ⟨i, hi, hu⟩
    refine hleft i hi ?_ hu
    cases hdom : d.domain s.history (d.transition k) with
    | none =>
        refine absurd ?_ (hleft _ hsource (.inl rfl))
        rw [hdom]
        exact hconfig.lt _ hsource
    | some a =>
        rw [hdom] at hu
        rcases (wf.domain_spec hdom).1 with heq | hsa
        · rw [heq]
          exact .inr hu
        · refine absurd ?_ (hleft _ hsource (.inl rfl))
          rw [hdom]
          exact hsa

/-- A step does not change the domains of its own transitions, though they record on the way. -/
theorem domain_recordHistory {k : Nat} (hk : k ∈ ts)
    (hless : (d.transition k).isTargetless = false) {exiting : List Nat}
    (hexiting : ∀ i ∈ exiting, ∃ r ∈ ts, i ∈ d.exitSet s.config s.history (d.transition r)) :
    d.domain s.history (d.transition k) =
      d.domain (d.recordHistory s.config exiting s.history) (d.transition k) := by
  have hsub : ∀ i ∈ exiting, i ∈ s.config := by
    intro i hi
    obtain ⟨r, -, hi⟩ := hexiting i hi
    exact (of_mem_exitSet hconfig hi).2.1
  have hrec' := wf.recordable_recordHistory hconfig hrec hsub
  obtain ⟨x, targets, vs, hx, hland, -, hleads, hone⟩ := wf.selected_spec hsel hdef hk hless hrec
  obtain ⟨x', targets', vs', -, hland', -, hleads', hone'⟩ :=
    wf.selected_spec hsel hdef hk hless hrec'
  rw [hone] at hone'
  cases hone'
  have heq := hland.effectiveTargets_eq
  have heq' := hland'.effectiveTargets_eq
  -- the target leads where it did, or both times to below a state that is left
  rcases wf.leads_recordHistory hdef.settled hconfig hrec hsub hx hleads hleads' with
    hsame | ⟨p, hp, hbelow, hbelow'⟩
  · exact domain_congr (by rw [heq, heq', hsame])
  · rw [← heq] at hbelow
    rw [← heq'] at hbelow'
    have hne : d.effectiveTargets s.history (d.transition k) ≠ [] := heq ▸ hland.ne_nil
    obtain ⟨r, hr, hpr⟩ := hexiting p hp
    exact wf.domain_eq_of_below hne (heq' ▸ hland'.ne_nil) hbelow hbelow'
      (wf.not_exited_of_below hconfig hsel hleave hk hr hless hpr hne hbelow)

omit hleave in
/-- Selected transitions are moves whose domains lie apart. -/
theorem moves_of_contained (hcont : d.Contained) {exiting : List Nat}
    (hexiting : ∀ i ∈ exiting, ∃ r ∈ ts, i ∈ d.exitSet s.config s.history (d.transition r)) :
    (∀ t ∈ d.permitted ts, t.isTargetless = false →
      d.Move s.config s.history (d.recordHistory s.config exiting s.history) t) ∧
      d.Independent (d.recordHistory s.config exiting s.history) (d.permitted ts) := by
  have hsub : ∀ i ∈ exiting, i ∈ s.config := by
    intro i hi
    obtain ⟨r, -, hi⟩ := hexiting i hi
    exact (of_mem_exitSet hconfig hi).2.1
  have hrec' := wf.recordable_recordHistory hconfig hrec hsub
  have hleave := fun k (hk : k ∈ ts) => wf.leaves_or_only hconfig hsel hdef hrec hcont hk
  have hmoves : ∀ t ∈ d.permitted ts, t.isTargetless = false →
      d.Move s.config s.history (d.recordHistory s.config exiting s.history) t := by
    intro t ht hless
    obtain ⟨k, hk, rfl, -⟩ := mem_permitted.mp ht
    obtain ⟨x, targets, vs, -, hland, hstands, -⟩ := wf.selected_spec hsel hdef hk hless hrec'
    exact ⟨wf.source_mem hconfig hsel hk, ⟨targets, vs, hland, hstands.agreeing⟩,
      hcont k (hsel.lt k hk) _ hrec',
      wf.domain_recordHistory hconfig hsel hdef hrec hleave hk hless hexiting⟩
  refine ⟨hmoves, ?_⟩
  by_cases hall : ∀ t ∈ d.permitted ts, t.isTargetless = false →
      ∃ i ∈ s.config, d.Under (d.domain s.history t) i
  · exact wf.independent_of_selection hconfig hsel (.refl ts)
      (fun t ht hless => (hmoves t ht hless).domain_eq) hall
  · -- a transition that leaves nothing is the only one
    simp only [not_forall] at hall
    obtain ⟨t, ht, hless, hnone⟩ := hall
    obtain ⟨k, hk, rfl, -⟩ := mem_permitted.mp ht
    have honly := (hleave k hk hless).resolve_left hnone
    have hpairs : ts.Pairwise fun k k' => d.transition k ≠ d.transition k' := by
      refine hsel.nodup.imp_of_mem fun {k₁ k₂} h₁ h₂ hne => ?_
      exact absurd ((honly k₁ h₁).trans (honly k₂ h₂).symm) hne
    have hnodup : (d.permitted ts).Nodup := (List.pairwise_map.mpr hpairs).filter _
    have hsame : ∀ t' ∈ d.permitted ts, t' = d.transition k := by
      intro t' ht'
      obtain ⟨k', hk', rfl, -⟩ := mem_permitted.mp ht'
      rw [honly k' hk']
    exact hnodup.imp_of_mem fun {t₁ t₂} h₁ h₂ hne =>
      absurd ((hsame t₁ h₁).trans (hsame t₂ h₂).symm) hne

end

end WellFormed

end Statechart.Definition

namespace Statechart.Machine

variable {m : Machine} {w w' : Work} {event : Event}

/-- A microstep of selected transitions leads from a possible configuration to a possible one. -/
theorem possible_microstep (wf : m.definition.WellFormed) (hdef : m.definition.Definite)
    (hcont : m.definition.Contained) (hconfig : m.definition.Possible w.snapshot.config)
    (hrec : m.definition.Recordable w.snapshot.history) {ts : List Nat}
    (hsel : m.definition.Selection (m.situation w.snapshot) ts)
    (h : m.microstep ts event w = .ok () w') :
    m.definition.Possible w'.snapshot.config ∧ m.definition.Recordable w'.snapshot.history := by
  have hleaving : ∀ i ∈ (m.leaving w.snapshot (m.definition.permitted ts)).toList.reverse,
      ∃ r ∈ ts, i ∈ m.definition.exitSet w.snapshot.config w.snapshot.history
        (m.definition.transition r) := by
    intro i hi
    rw [List.mem_reverse, NodeSet.mem_toList, mem_leaving] at hi
    obtain ⟨t, ht, hi⟩ := hi
    obtain ⟨r, hr, rfl, -⟩ := Definition.mem_permitted.mp ht
    exact ⟨r, hr, hi⟩
  obtain ⟨hmoves, hind⟩ := wf.moves_of_contained hconfig hsel hdef hrec hcont hleaving
  refine ⟨(microstep_refills wf hconfig hmoves hind h).possible wf hconfig, ?_⟩
  rw [(microstep_ok h).1]
  refine wf.recordable_recordHistory hconfig hrec fun i hi => ?_
  obtain ⟨r, -, hi⟩ := hleaving i hi
  exact (Definition.WellFormed.of_mem_exitSet hconfig hi).2.1

/-! ## What breaks a configuration -/

/-- A valid configuration in which everything that was active outside some subtrees still is has
nothing new outside them. -/
theorem mem_of_valid (wf : m.definition.WellFormed) {config next : Configuration}
    (hconfig : m.definition.Possible config) (tops : List (Option Nat))
    (hstay : ∀ i ∈ config, (∀ top ∈ tops, ¬ m.definition.Under top i) → i ∈ next)
    (hvalid : m.definition.isValid next = true) {i : Nat} (hlt : i < m.definition.nodes.size)
    (hi : i ∈ next) (hout : ∀ top ∈ tops, ¬ m.definition.Under top i) : i ∈ config := by
  have hat : ∀ i ∈ next, m.definition.isValidAt next i = true := by
    simpa [Definition.isValid] using hvalid
  induction i using Nat.strongRecOn with
  | _ i ih =>
      obtain ⟨hparent, -, -, hhist⟩ := (wf.isValidAt_iff hlt).mp (hat i hi)
      cases hp : (m.definition.node i).parent with
      | none =>
          rw [wf.parent_eq_none hlt hp]
          exact hconfig.root
      | some p =>
          have hchild := wf.mem_children.mpr hp
          have hpsize : p < m.definition.nodes.size :=
            Nat.lt_trans (wf.parent_lt hp).1 (wf.parent_lt hp).2
          have hpout : ∀ top ∈ tops, ¬ m.definition.Under top p := fun top htop hu =>
            hout top htop (wf.under_of_below (wf.child_below hchild) hu)
          have hpact := ih p (wf.parent_lt hp).1 hpsize (hparent p hp) hpout
          rcases wf.kind_of_child hchild with hk | hk
          · -- the child that was active lies outside as well, and there is one only
            obtain ⟨c, hc, hcact, -⟩ := hconfig.compound p hpact hk
            have hcout : ∀ top ∈ tops, ¬ m.definition.Under top c := by
              intro top htop hu
              rcases (wf.under_iff_parent (wf.child_lt hc)).mp hu with h | ⟨q, hq, h⟩
              · rw [wf.mem_children.mp hc, ← hp] at h
                exact hout top htop ((wf.under_iff_parent hlt).mpr (.inl h))
              · rw [wf.mem_children.mp hc] at hq
                cases hq
                exact hpout top htop h
            obtain ⟨-, hcompound, -⟩ := (wf.isValidAt_iff hpsize).mp (hat p (hparent p hp))
            obtain ⟨c', -, -, hunique⟩ := hcompound hk
            rw [hunique i hchild hi, ← hunique c hc (hstay c hcact hcout)]
            exact hcact
          · exact hconfig.parallel p hpact hk i hchild hhist

/-- A step that enters an inactive state beside all of its domains breaks the configuration. -/
theorem not_valid_of_overflow (wf : m.definition.WellFormed)
    (hconfig : m.definition.Possible w.snapshot.config) {ts : List Nat}
    (h : m.microstep ts event w = .ok () w') {i : Nat} (hlt : i < m.definition.nodes.size)
    (hi : i ∈ m.definition.entrySet (m.historyAfter w.snapshot (m.definition.permitted ts))
      (m.definition.permitted ts))
    (hinactive : i ∉ w.snapshot.config)
    (hout : ∀ t ∈ m.definition.permitted ts, t.isTargetless = false →
      ¬ m.definition.Under (m.definition.domain w.snapshot.history t) i) :
    m.definition.isValid w'.snapshot.config = false := by
  have hmem := (microstep_ok h).2
  by_contra hvalid
  refine hinactive (mem_of_valid wf hconfig (((m.definition.permitted ts).filter
    fun t => !t.isTargetless).map (m.definition.domain w.snapshot.history)) ?_
    (by simpa using hvalid) hlt ((hmem i).mpr (.inr hi)) ?_)
  · intro j hj hno
    refine (hmem j).mpr (.inl ⟨hj, fun t ht hexit => ?_⟩)
    obtain ⟨hless, -, hu⟩ := Definition.WellFormed.of_mem_exitSet hconfig hexit
    exact hno _ (List.mem_map_of_mem (List.mem_filter.mpr ⟨ht, by simp [hless]⟩)) hu
  · intro top htop
    obtain ⟨t, ht, rfl⟩ := List.mem_map.mp htop
    obtain ⟨ht, hless⟩ := List.mem_filter.mp ht
    exact hout t ht (by simpa using hless)

/-- A step of one transition that enters nothing inactive beside its domain fills this anew. -/
theorem possible_of_single (wf : m.definition.WellFormed)
    (hconfig : m.definition.Possible w.snapshot.config) {t : Transition Logic}
    {history : HistoryValue} {targets : List Nat} {vs : List (Nat × Bool)}
    (hsource : t.source ∈ w.snapshot.config) (hless : t.isTargetless = false)
    (hland : m.definition.Landing history t targets vs) (hagree : m.definition.Agreeing targets)
    (hdomain : m.definition.domain w.snapshot.history t = m.definition.domain history t)
    {next : Configuration} (hnext : ∀ i, i ∈ next ↔
      (i ∈ w.snapshot.config ∧
        i ∉ m.definition.exitSet w.snapshot.config w.snapshot.history t) ∨
      i ∈ m.definition.addEntered history .empty t)
    (hin : ∀ i ∈ m.definition.addEntered history .empty t, i ∈ w.snapshot.config ∨
      m.definition.Under (m.definition.domain w.snapshot.history t) i) :
    m.definition.Possible next := by
  have hentered : ∀ i, m.definition.Under (m.definition.domain history t) i →
      (i ∈ m.definition.addEntered history .empty t ↔
        m.definition.Filled .empty targets (m.definition.domain history t) i) :=
    fun i => hland.mem_addEntered wf fun s hs => absurd hs (NodeSet.not_mem_empty s)
  -- as nothing is entered beside the domain, the step is a refill of the domain alone
  have hrefilled : m.definition.Refilled .empty w.snapshot.config
      [(m.definition.domain history t, targets)] next := by
    refine ⟨by simpa using hagree, ?_, by simp, fun i => ?_⟩
    · simp only [List.mem_singleton, forall_eq]
      exact fun a ha => wf.mem_of_within hconfig (wf.domain_spec ha).1 hsource
    · rw [hnext, Definition.WellFormed.mem_exitSet hconfig hless, hdomain]
      rw [hdomain] at hin
      simp only [List.mem_singleton, forall_eq, exists_eq_left]
      constructor
      · rintro (⟨hi, hno⟩ | hi)
        · exact .inl ⟨hi, fun hu => hno ⟨hi, hu⟩⟩
        · by_cases hu : m.definition.Under (m.definition.domain history t) i
          · exact .inr ((hentered i hu).mp hi)
          · exact .inl ⟨(hin i hi).resolve_right hu, hu⟩
      · rintro (⟨hi, hno⟩ | hi)
        · exact .inl ⟨hi, fun h => hno h.2⟩
        · exact .inr ((hentered i (wf.filled_under hi)).mpr hi)
  exact hrefilled.possible wf hconfig

theorem microstep_targetless {ts : List Nat} (h : m.microstep ts event w = .ok () w')
    (hless : ∀ t ∈ m.definition.permitted ts, t.isTargetless = true) :
    w'.snapshot.config = w.snapshot.config := by
  refine NodeSet.ext fun i => ?_
  rw [(microstep_ok h).2, Definition.entrySet_targetless hless]
  have hexit : ∀ t ∈ m.definition.permitted ts,
      i ∉ m.definition.exitSet w.snapshot.config w.snapshot.history t := by
    intro t ht
    rw [Definition.exitSet, if_pos (hless t ht)]
    exact NodeSet.not_mem_empty i
  exact ⟨fun h => h.elim And.left fun h => absurd h (NodeSet.not_mem_empty i),
    fun h => .inl ⟨h, hexit⟩⟩

/-- After a step of one transition the configuration is valid exactly if the step enters nothing
inactive beside its domain. -/
theorem isValid_iff_of_single (wf : m.definition.WellFormed) (hdef : m.definition.Definite)
    (hconfig : m.definition.Possible w.snapshot.config)
    (hrec : m.definition.Recordable w.snapshot.history) {k : Nat}
    (hsel : m.definition.Selection (m.situation w.snapshot) [k])
    (h : m.microstep [k] event w = .ok () w') :
    m.definition.isValid w'.snapshot.config = true ↔
      ∀ i ∈ m.definition.entrySet (m.historyAfter w.snapshot (m.definition.permitted [k]))
          (m.definition.permitted [k]), i ∈ w.snapshot.config ∨
        m.definition.Under (m.definition.domain w.snapshot.history (m.definition.transition k)) i := by
  have hmem := (microstep_ok h).2
  by_cases hcounts : (m.definition.transition k).forbidden = false ∧
      (m.definition.transition k).isTargetless = false
  · obtain ⟨hforbidden, hless⟩ := hcounts
    have hper : m.definition.permitted [k] = [m.definition.transition k] := by
      simp [Definition.permitted, hforbidden]
    have hexiting : ∀ i ∈ (m.leaving w.snapshot [m.definition.transition k]).toList.reverse,
        ∃ r ∈ [k], i ∈ m.definition.exitSet w.snapshot.config w.snapshot.history
          (m.definition.transition r) := by
      simp [mem_leaving]
    have hdomain := wf.domain_recordHistory hconfig hsel hdef hrec
      (fun k' hk' _ => .inr fun k'' hk'' => by simp_all) List.mem_cons_self hless hexiting
    have hrec' := wf.recordable_recordHistory hconfig hrec fun i hi => by
      obtain ⟨r, -, hi⟩ := hexiting i hi
      exact (Definition.WellFormed.of_mem_exitSet hconfig hi).2.1
    obtain ⟨x, targets, vs, -, hland, hstands, -⟩ :=
      wf.selected_spec hsel hdef List.mem_cons_self hless hrec'
    rw [hper] at hmem ⊢
    constructor
    · -- an inactive state entered beside the domain would be one too many
      intro hvalid i hi
      by_contra hno
      rw [not_or] at hno
      have hbroken := not_valid_of_overflow wf hconfig h (hland.addEntered_lt wf hi)
        (by rw [hper]; exact hi) hno.1 (by simpa [hper] using fun _ => hno.2)
      rw [hvalid] at hbroken
      cases hbroken
    · intro hin
      refine (wf.possible_iff.mp (possible_of_single wf hconfig
        (wf.source_mem hconfig hsel List.mem_cons_self) hless hland hstands.agreeing hdomain
        (fun i => ?_) hin)).1
      simpa [Definition.entrySet, historyAfter] using hmem i
  · -- a transition that does not count leaves and enters nothing
    have hless : ∀ t ∈ m.definition.permitted [k], t.isTargetless = true := by
      intro t ht
      obtain ⟨k', hk', rfl, hforbidden⟩ := Definition.mem_permitted.mp ht
      rw [List.mem_singleton.mp hk'] at hforbidden ⊢
      simpa [hforbidden] using hcounts
    rw [microstep_targetless h hless, Definition.entrySet_targetless hless]
    exact ⟨fun _ i hi => absurd hi (NodeSet.not_mem_empty i),
      fun _ => (wf.possible_iff.mp hconfig).1⟩

end Statechart.Machine
