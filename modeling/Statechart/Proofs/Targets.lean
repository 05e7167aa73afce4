import Mathlib.Data.List.Pairwise
import Statechart.Proofs.Entry

/-!
# Effective targets

`Leads` follows a target through history states to the states that it stands for, and lists the
visits that entering it takes on the way. The effective targets of a transition (`addTarget_leads`)
and its entry (`addState_leads`) both come from there. With `Landing`, which collects what holds of
the targets of one transition, the main results say what the transition enters: what is filled around
its targets under the domain (`Landing.mem_addEntered`), and elsewhere nothing that it would not
enter alone (`Landing.addEntered_subset`).
-/

namespace Statechart.Definition

variable {L : Type} (d : Definition L)

/-- A target leads to states through at most `n` steps, with the visits made on the way. -/
inductive Leads (history : HistoryValue) : Nat → Nat → List Nat → List (Nat × Bool) → Prop
  /-- A state that is no history stands for itself. -/
  | state {n x : Nat} : (d.node x).isHistory = false → Leads history (n + 1) x [x] []
  /-- A history state stands for what it has recorded. -/
  | recorded {n h : Nat} {xs : List Nat} : (d.node h).isHistory = true →
      SortedMap.find? h history = some xs → (∀ x ∈ xs, (d.node x).isHistory = false) →
      Leads history (n + 1) h xs (xs.flatMap (d.visits (d.node h).parent))
  /-- Else it may stand for all regions of its parent. -/
  | regions {n h : Nat} {xs : List Nat} : (d.node h).isHistory = true →
      SortedMap.find? h history = none → d.historyDefaults h = xs →
      (∀ x ∈ xs, (d.node x).isHistory = false) →
      Leads history (n + 2) h xs (xs.flatMap (d.visits (d.node h).parent))
  /-- Or for what its one default leads to. -/
  | default {n h x : Nat} {xs : List Nat} {vs : List (Nat × Bool)} :
      (d.node h).isHistory = true → SortedMap.find? h history = none →
      d.historyDefaults h = [x] → Leads history n x xs vs →
      Leads history (n + 1) h xs (vs ++ d.visits (d.node h).parent x)

variable {d} {history : HistoryValue}

/-! ## Effective targets -/

theorem foldl_addNew_of_nodup : ∀ {xs out : List Nat}, xs.Nodup → (∀ x ∈ xs, x ∉ out) →
    xs.foldl addNew out = out ++ xs
  | [], out, _, _ => by simp
  | x :: rest, out, hnodup, hnew => by
      have hx : out.contains x = false := by
        simpa using hnew x List.mem_cons_self
      obtain ⟨hfirst, hrest⟩ := List.nodup_cons.mp hnodup
      rw [List.foldl_cons, addNew, hx, if_neg Bool.false_ne_true,
        foldl_addNew_of_nodup hrest, List.append_assoc, List.singleton_append]
      intro y hy hmem
      rcases List.mem_append.mp hmem with hmem | hmem
      · exact hnew y (List.mem_cons_of_mem _ hy) hmem
      · rw [List.mem_singleton.mp hmem] at hy
        exact hfirst hy

theorem foldl_addTarget_states {n : Nat} : ∀ {xs out : List Nat},
    (∀ x ∈ xs, (d.node x).isHistory = false) →
      xs.foldl (d.addTarget history (n + 1)) out = xs.foldl addNew out
  | [], _, _ => rfl
  | x :: rest, out, h => by
      have hx : d.addTarget history (n + 1) out x = addNew out x := by
        rw [addTarget, h x List.mem_cons_self, if_neg Bool.false_ne_true]
      rw [List.foldl_cons, List.foldl_cons, hx,
        foldl_addTarget_states fun y hy => h y (List.mem_cons_of_mem _ hy)]

/-- Replacing history follows the same steps. -/
theorem addTarget_leads {n x : Nat} {xs out : List Nat} {vs : List (Nat × Bool)}
    (h : d.Leads history n x xs vs) : d.addTarget history n out x = xs.foldl addNew out := by
  induction h with
  | state hhist =>
      rw [addTarget, hhist, if_neg Bool.false_ne_true]
      rfl
  | recorded hhist hfind _ => simp only [addTarget, hhist, hfind, if_true]
  | regions hhist hfind hdefaults hstates =>
      rw [addTarget, hhist, hfind, hdefaults, if_pos rfl]
      exact foldl_addTarget_states hstates
  | default hhist hfind hdefaults _ ih =>
      rw [addTarget, hhist, hfind, hdefaults, if_pos rfl]
      exact ih

/-! ## Entering -/

variable (d) in
theorem le_entryFuel : d.nodes.size + (d.nodes.size + 1) ≤ d.entryFuel := by
  have h := Nat.mul_le_mul (Nat.le_refl d.nodes.size) (Nat.le_add_left 1 d.nodes.size)
  rw [entryFuel, Nat.succ_mul]
  omega

namespace WellFormed

variable (wf : d.WellFormed) {enter enter' : Configuration → Nat → Configuration}
include wf

theorem foldl_visit_congr
    (henter : ∀ c < d.nodes.size, (d.node c).isHistory = false → d.Enters enter c)
    (henter' : ∀ c < d.nodes.size, (d.node c).isHistory = false → d.Enters enter' c) :
    ∀ (vs : List (Nat × Bool)) (entry : Configuration),
      vs.foldl (d.visit enter) entry = vs.foldl (d.visit enter') entry
  | [], _ => rfl
  | v :: rest, entry => by
      have hone : d.visit enter entry v = d.visit enter' entry v := NodeSet.ext fun i => by
        rw [wf.mem_visit fun c hc => henter c (wf.child_lt hc.2.1) hc.2.2,
          wf.mem_visit fun c hc => henter' c (wf.child_lt hc.2.1) hc.2.2]
      rw [List.foldl_cons, List.foldl_cons, hone, foldl_visit_congr henter henter' rest]

theorem foldl_enter_congr
    (henter : ∀ c < d.nodes.size, (d.node c).isHistory = false → d.Enters enter c)
    (henter' : ∀ c < d.nodes.size, (d.node c).isHistory = false → d.Enters enter' c)
    {targets : List Nat} (hlt : ∀ t ∈ targets, t < d.nodes.size)
    (hhist : ∀ t ∈ targets, (d.node t).isHistory = false) (hscat : d.Scattered targets)
    {entry : Configuration} (hno : ∀ t ∈ targets, ¬ d.Covered entry t) :
    targets.foldl enter entry = targets.foldl enter' entry := NodeSet.ext fun i => by
  rw [wf.mem_foldl_enter henter hlt hhist hscat hno,
    wf.mem_foldl_enter henter' hlt hhist hscat hno]

omit wf in
theorem addState_history {fuel h : Nat} {entry : Configuration}
    (hhist : (d.node h).isHistory = true) : d.addState history (fuel + 1) entry h =
      ((d.historyTargets history h).flatMap (d.visits (d.node h).parent)).foldl
        (d.visit (d.addState history fuel))
        ((d.historyTargets history h).foldl (d.addState history fuel) entry) := by
  have hk : (d.node h).kind = .history := by simpa [StateNode.isHistory] using hhist
  rw [addState, ← foldl_addAbove]
  simp only [hk]

/-- To enter a target is to enter what it leads to, and then to make the visits. -/
theorem addState_leads
    (henter : ∀ c < d.nodes.size, (d.node c).isHistory = false → d.Enters enter c)
    {n x : Nat} {targets : List Nat} {vs : List (Nat × Bool)}
    (h : d.Leads history n x targets vs) (hlt : ∀ t ∈ targets, t < d.nodes.size)
    (hscat : d.Scattered targets) {entry : Configuration}
    (hno : ∀ t ∈ targets, ¬ d.Covered entry t) {fuel : Nat} (hfuel : d.nodes.size + n ≤ fuel) :
    d.addState history fuel entry x = vs.foldl (d.visit enter) (targets.foldl enter entry) := by
  -- the fuel of a nested call differs, but what it enters does not
  have hadd : ∀ {fuel}, d.nodes.size ≤ fuel → ∀ c < d.nodes.size, (d.node c).isHistory = false →
      d.Enters (d.addState history fuel) c :=
    fun hfuel c hc hhist => wf.enters_addState hc hhist (by omega)
  induction h generalizing fuel with
  | @state n x hhist =>
      have hx := hlt x List.mem_cons_self
      have hx' := hno x List.mem_cons_self
      exact NodeSet.ext fun i => by
        rw [hadd (by omega) x hx hhist entry hx' i]
        exact (henter x hx hhist entry hx' i).symm
  | @recorded n h xs hhist hfind hstates =>
      obtain ⟨fuel, rfl⟩ : ∃ f, fuel = f + 1 := ⟨fuel - 1, by omega⟩
      have htargets : d.historyTargets history h = xs := by rw [historyTargets, hfind]; rfl
      rw [addState_history hhist, htargets,
        wf.foldl_enter_congr (hadd (by omega)) henter hlt hstates hscat hno,
        wf.foldl_visit_congr (hadd (by omega)) henter]
  | @regions n h xs hhist hfind hdefaults hstates =>
      obtain ⟨fuel, rfl⟩ : ∃ f, fuel = f + 1 := ⟨fuel - 1, by omega⟩
      have htargets : d.historyTargets history h = xs := by
        rw [historyTargets, hfind, ← hdefaults]
        rfl
      rw [addState_history hhist, htargets,
        wf.foldl_enter_congr (hadd (by omega)) henter hlt hstates hscat hno,
        wf.foldl_visit_congr (hadd (by omega)) henter]
  | @default n h x xs vs hhist hfind hdefaults hleads ih =>
      obtain ⟨fuel, rfl⟩ : ∃ f, fuel = f + 1 := ⟨fuel - 1, by omega⟩
      have htargets : d.historyTargets history h = [x] := by
        rw [historyTargets, hfind, ← hdefaults]
        rfl
      rw [addState_history hhist, htargets, List.foldl_cons, List.foldl_nil,
        ih hlt hscat hno (by omega), wf.foldl_visit_congr (hadd (by omega)) henter,
        ← List.foldl_append, List.flatMap_singleton]

theorem enters_enterState {c : Nat} (hc : c < d.nodes.size)
    (hhist : (d.node c).isHistory = false) : d.Enters (d.enterState history) c := by
  have := d.le_entryFuel
  exact wf.enters_addState hc hhist (by omega)

end WellFormed

/-! ## Domains -/

/-- What a transition leaves is active, and lies below its domain if it has one. -/
theorem mem_exitSet_iff {config : Configuration} {t : Transition L} {i : Nat} :
    i ∈ d.exitSet config history t ↔
      i ∈ config ∧ t.isTargetless = false ∧ ∀ a, d.domain history t = some a → d.Below i a := by
  rw [exitSet]
  cases t.isTargetless with
  | true => simp [NodeSet.not_mem_empty]
  | false => cases d.domain history t <;> simp

namespace WellFormed

variable (wf : d.WellFormed)
include wf

omit wf in
theorem domain_of_inside {t : Transition L} (hne : d.effectiveTargets history t ≠ [])
    (hreenter : t.reenter = false)
    (hin : ∀ s ∈ d.effectiveTargets history t, d.Within s t.source) :
    d.domain history t = some t.source := by
  have hstays : d.staysInside t.source (d.effectiveTargets history t) = true := by
    simpa [staysInside, Within] using hin
  simp [domain, hne, hreenter, hstays]

omit wf in
theorem domain_of_outside {t : Transition L} (hne : d.effectiveTargets history t ≠ [])
    (hout : t.reenter = true ∨ ∃ s ∈ d.effectiveTargets history t, ¬ d.Within s t.source) :
    d.domain history t = (d.properAncestors t.source none).find? fun a =>
      (d.effectiveTargets history t).all fun s => d.isDescendant s a := by
  have hno : ¬ (t.reenter = false ∧
      d.staysInside t.source (d.effectiveTargets history t) = true) := by
    rintro ⟨hreenter, hstays⟩
    rcases hout with h | ⟨s, hs, hwithin⟩
    · rw [h] at hreenter
      cases hreenter
    · have hall : ∀ s ∈ d.effectiveTargets history t, d.Within s t.source := by
        simpa [staysInside, Within] using hstays
      exact hwithin (hall s hs)
  simp only [domain, List.isEmpty_iff, if_neg hne, Bool.and_eq_true, Bool.not_eq_true', if_neg hno]

omit wf in
/-- A transition without reentry whose targets lie in its source is internal. -/
theorem inside_or_outside (d : Definition L) (history : HistoryValue) (t : Transition L) :
    (t.reenter = false ∧ ∀ s ∈ d.effectiveTargets history t, d.Within s t.source) ∨
      (t.reenter = true ∨ ∃ s ∈ d.effectiveTargets history t, ¬ d.Within s t.source) := by
  by_cases hin : ∀ s ∈ d.effectiveTargets history t, d.Within s t.source
  · cases hreenter : t.reenter with
    | false => exact .inl ⟨rfl, hin⟩
    | true => exact .inr (.inl rfl)
  · exact .inr (.inr (by simpa using hin))

/-- The domain lies around the source, and the targets in the domain. -/
theorem domain_spec {t : Transition L} {a : Nat} (h : d.domain history t = some a) :
    d.Within t.source a ∧ ∀ s ∈ d.effectiveTargets history t, d.Within s a := by
  have hne : d.effectiveTargets history t ≠ [] := by
    intro hnil
    simp [domain, hnil] at h
  rcases inside_or_outside d history t with ⟨hreenter, hin⟩ | hout
  · rw [domain_of_inside hne hreenter hin] at h
    cases h
    exact ⟨.inl rfl, hin⟩
  · rw [domain_of_outside hne hout] at h
    have hall := List.find?_some h
    simp only [List.all_eq_true, isDescendant_iff] at hall
    exact ⟨.inr (wf.mem_properAncestors_none.mp (List.mem_of_find?_eq_some h)),
      fun s hs => .inr (hall s hs)⟩

end WellFormed

/-! ## What a transition enters -/

/-- What a transition with one target lands on: the states that its target leads to. -/
structure Landing (d : Definition L) (history : HistoryValue) (t : Transition L)
    (targets : List Nat) (vs : List (Nat × Bool)) : Prop where
  leads : ∃ x, t.targets = [x] ∧ d.Leads history (d.nodes.size + 1) x targets vs
  lt : ∀ s ∈ targets, s < d.nodes.size
  history : ∀ s ∈ targets, (d.node s).isHistory = false
  ne_nil : targets ≠ []
  scattered : d.Scattered targets
  visits : ∀ v ∈ vs, d.Targeted targets v.1

namespace Landing

variable {t : Transition L} {targets : List Nat} {vs : List (Nat × Bool)}
  (wf : d.WellFormed) (h : d.Landing history t targets vs)
include h

theorem effectiveTargets_eq : d.effectiveTargets history t = targets := by
  obtain ⟨x, hx, hleads⟩ := h.leads
  have hnodup : targets.Nodup := h.scattered.imp fun hne heq => hne.1 (.inl heq)
  rw [effectiveTargets, hx, List.foldl_cons, List.foldl_nil, addTarget_leads hleads,
    foldl_addNew_of_nodup hnodup (by simp), List.nil_append]

include wf

theorem not_below {s s' : Nat} (hs : s ∈ targets) (hs' : s' ∈ targets) : ¬ d.Below s' s := by
  intro hbelow
  have hne : s ≠ s' := by
    rintro rfl
    exact wf.not_below_self s hbelow
  have hsym : Std.Symm fun t t' => ¬ d.Within t t' ∧ ¬ d.Within t' t := ⟨fun _ _ h => ⟨h.2, h.1⟩⟩
  exact (h.scattered.forall hs hs' hne).2 (.inr hbelow)

/-- The targets lie in the domain. -/
theorem within_domain {s a : Nat} (hs : s ∈ targets) (ha : d.domain history t = some a) :
    d.Within s a :=
  (wf.domain_spec ha).2 s (by rwa [h.effectiveTargets_eq])

/-- All the visits of a transition, in one list. -/
theorem addEntered_eq {entry : Configuration} (hno : ∀ s ∈ targets, ¬ d.Covered entry s) :
    d.addEntered history entry t =
      (vs ++ targets.flatMap (d.visits (d.domain history t))).foldl
        (d.visit (d.enterState history)) (targets.foldl (d.enterState history) entry) := by
  obtain ⟨x, hx, hleads⟩ := h.leads
  have hfuel := d.le_entryFuel
  have hless : t.isTargetless = false := by simp [Transition.isTargetless, hx]
  rw [addEntered, hless, if_neg Bool.false_ne_true, h.effectiveTargets_eq, hx, List.foldl_cons,
    List.foldl_nil, foldl_addAbove, List.foldl_append]
  congr 1
  exact wf.addState_leads (fun c => wf.enters_enterState) hleads h.lt h.scattered hno d.le_entryFuel

/-- A visit begins within a target. -/
theorem targeted_of_visit {v : Nat × Bool}
    (hv : v ∈ vs ++ targets.flatMap (d.visits (d.domain history t))) :
    d.Targeted targets v.1 := by
  rcases List.mem_append.mp hv with hv | hv
  · exact h.visits v hv
  · obtain ⟨s, hs, hv⟩ := List.mem_flatMap.mp hv
    rcases List.mem_append.mp hv with hv | hv
    · obtain ⟨z, hz, rfl⟩ := List.mem_map.mp hv
      exact ⟨s, hs, .inr ((wf.mem_properAncestors _).mp hz).1⟩
    · obtain ⟨a, ha, rfl⟩ := List.mem_map.mp hv
      exact ⟨s, hs, h.within_domain wf hs (Option.mem_toList.mp ha)⟩

theorem mem_addEntered_iff {entry : Configuration} (hno : ∀ s ∈ targets, ¬ d.Covered entry s)
    {i : Nat} : i ∈ d.addEntered history entry t ↔ d.Visited entry targets
      (vs ++ targets.flatMap (d.visits (d.domain history t))) i := by
  rw [h.addEntered_eq wf hno]
  exact wf.mem_targets_visits (fun c => wf.enters_enterState) h.lt h.history h.scattered hno
    fun v => h.targeted_of_visit wf

theorem mem_addEntered_empty {i : Nat} : i ∈ d.addEntered history .empty t ↔
    d.Visited .empty targets (vs ++ targets.flatMap (d.visits (d.domain history t))) i :=
  h.mem_addEntered_iff wf fun s _ => not_covered_empty s

/-- Nothing was entered at the domain or under it. -/
theorem not_covered {entry : Configuration}
    (hfresh : ∀ s ∈ entry, ¬ d.Under (d.domain history t) s ∧ d.domain history t ≠ some s) :
    ∀ s ∈ targets, ¬ d.Covered entry s := by
  rintro s hs ⟨i, hi, hwithin⟩
  cases hdom : d.domain history t with
  | none =>
      refine (hfresh i hi).1 ?_
      rw [hdom]
      rcases hwithin with rfl | hbelow
      · exact h.lt i hs
      · exact (wf.below_bounds hbelow).2
  | some a =>
      rcases wf.within_trans hwithin (h.within_domain wf hs hdom) with rfl | hbelow
      · exact (hfresh i hi).2 hdom
      · exact (hfresh i hi).1 (by rw [hdom]; exact hbelow)

/-- Under its domain a transition enters what is filled around its targets. -/
theorem mem_addEntered {entry : Configuration}
    (hfresh : ∀ s ∈ entry, ¬ d.Under (d.domain history t) s ∧ d.domain history t ≠ some s)
    {i : Nat} (hi : d.Under (d.domain history t) i) :
    i ∈ d.addEntered history entry t ↔
      d.Filled .empty targets (d.domain history t) i := by
  rw [h.mem_addEntered_iff wf (h.not_covered wf hfresh)]
  refine wf.visited_iff_filled (fun s hs => ⟨h.lt s hs, fun a => h.within_domain wf hs⟩) h.ne_nil
    ?_ ?_ (fun s hs => (hfresh s hs).1) (fun s hs s' => h.not_below wf hs)
    (fun v => h.targeted_of_visit wf) hi
  · intro c hc s hs hbelow
    refine List.mem_append_right _ (List.mem_flatMap.mpr ⟨s, hs, List.mem_append_left _ ?_⟩)
    refine List.mem_map.mpr ⟨c, (wf.mem_properAncestors _).mpr ⟨hbelow, fun a ha _ => ?_⟩, rfl⟩
    rw [ha] at hc
    exact hc
  · intro a ha
    obtain ⟨s, hs⟩ := List.exists_mem_of_ne_nil targets h.ne_nil
    refine List.mem_append_right _ (List.mem_flatMap.mpr ⟨s, hs, List.mem_append_right _ ?_⟩)
    exact List.mem_map.mpr ⟨a, Option.mem_toList.mpr ha, rfl⟩

/-- Elsewhere it enters nothing that it would not enter alone. -/
theorem addEntered_subset {entry : Configuration}
    (hfresh : ∀ s ∈ entry, ¬ d.Under (d.domain history t) s ∧ d.domain history t ≠ some s)
    {i : Nat} (hi : i ∈ d.addEntered history entry t) :
    i ∈ entry ∨ i ∈ d.addEntered history .empty t := by
  rw [h.mem_addEntered_empty wf]
  exact Visited.subset ((h.mem_addEntered_iff wf (h.not_covered wf hfresh)).mp hi)

theorem addEntered_lt {i : Nat} (hi : i ∈ d.addEntered history .empty t) : i < d.nodes.size := by
  rcases (h.mem_addEntered_empty wf).mp hi with hi | ⟨s, hs, hi⟩ | hi |
    ⟨v, _, c, hregion, _, hi⟩
  · exact absurd hi (NodeSet.not_mem_empty i)
  · exact wf.within_lt (wf.byDefault_within hi) (h.lt s hs)
  · obtain ⟨s, hs, hwithin⟩ := h.targeted_of_visit wf hi
    exact Nat.lt_of_le_of_lt (wf.le_of_within hwithin) (h.lt s hs)
  · exact wf.within_lt (wf.byDefault_within hi) (wf.child_lt hregion.2.1)

theorem subset_addEntered {entry : Configuration}
    (hfresh : ∀ s ∈ entry, ¬ d.Under (d.domain history t) s ∧ d.domain history t ≠ some s)
    {i : Nat} (hi : i ∈ entry) : i ∈ d.addEntered history entry t :=
  (h.mem_addEntered_iff wf (h.not_covered wf hfresh)).mpr (.inl hi)

end Landing

end Statechart.Definition
