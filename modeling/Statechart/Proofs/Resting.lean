import Statechart.Proofs.Runs

/-!
# Transitions from leaves to themselves

A transition from a leaf to itself leaves nothing, since nothing lies below its domain. To enter the
leaf it climbs past this domain up to the root, though, and on the way enters the regions beside the
leaf by default, as long as nothing that was entered before lies in them (`mem_entrySet_idle`). So a
step of such transitions changes nothing exactly if these regions are already as they are by default
(`idle_transitions_rest`).
-/

namespace Statechart

namespace Definition

variable {L : Type} (d : Definition L)

/-- A transition from a leaf to itself that neither enters it again nor acts. -/
structure Idle (t : Transition L) : Prop where
  leaf : (d.node t.source).kind = .atomic
  targets : t.targets = [t.source]
  reenter : t.reenter = false
  actions : t.actions = []

/-- After some other transitions, a transition comes by a region beside its source in which none of
the sources lies. -/
def Opens (before : List (Transition L)) (t : Transition L) (c : Nat) : Prop :=
  ∃ p, d.Below t.source p ∧ d.Region p c ∧ ∀ t' ∈ before ++ [t], ¬ d.Within t'.source c

/-- The regions that transitions come by are as they are by default. -/
def Undisturbed (config : Configuration) (ts : List (Transition L)) : Prop :=
  ∀ before t after, ts = before ++ t :: after → ∀ c, d.Opens before t c →
    ∀ i, d.ByDefault c i → i ∈ config

variable {d} {t : Transition L} {ts : List (Transition L)} {config entry : Configuration}
  {history : HistoryValue}

/-- To split a list with one more item at its end is to split the list, or to split that item off. -/
theorem exists_split_concat {α : Type} {P : List α → α → Prop} {l : List α} {a : α} :
    (∃ before b after, l ++ [a] = before ++ b :: after ∧ P before b) ↔
      (∃ before b after, l = before ++ b :: after ∧ P before b) ∨ P l a := by
  constructor
  · rintro ⟨before, b, after, heq, h⟩
    rcases List.eq_nil_or_concat' after with rfl | ⟨after, c, rfl⟩
    · obtain ⟨rfl, hab⟩ := List.append_inj' heq rfl
      cases hab
      exact .inr h
    · rw [← List.cons_append, ← List.append_assoc] at heq
      exact .inl ⟨before, b, after, (List.append_inj' heq rfl).1, h⟩
  · rintro (⟨before, b, after, rfl, h⟩ | h)
    · exact ⟨before, b, after ++ [a], by simp, h⟩
    · exact ⟨l, a, [], rfl, h⟩

namespace Idle

variable (h : d.Idle t)
include h

theorem isAtomic : (d.node t.source).isAtomic = true := by simp [StateNode.isAtomic, h.leaf]

theorem isHistory : (d.node t.source).isHistory = false := by simp [StateNode.isHistory, h.leaf]

theorem isTargetless : t.isTargetless = false := by simp [Transition.isTargetless, h.targets]

theorem effectiveTargets : d.effectiveTargets history t = [t.source] :=
  WellFormed.effectiveTargets_state history h.targets h.isHistory

/-- The domain is the leaf itself. -/
theorem domain : d.domain history t = some t.source :=
  WellFormed.domain_of_inside (by simp [h.effectiveTargets]) h.reenter
    (by simp [h.effectiveTargets])

theorem enterState : d.enterState history entry t.source = entry.insert t.source := by
  have hfuel : d.entryFuel = d.nodes.size * (d.nodes.size + 1) + d.nodes.size + 1 := by
    rw [entryFuel, Nat.succ_mul, Nat.add_assoc]
  rw [Definition.enterState, hfuel, addState]
  simp only [h.leaf]

end Idle

namespace WellFormed

variable (wf : d.WellFormed)
include wf

theorem exitSet_idle (h : d.Idle t) : d.exitSet config history t = .empty := by
  have hnone : (config.toList.filter fun i => d.isDescendant i t.source) = [] :=
    List.filter_eq_nil_iff.mpr fun i _ => wf.not_below_of_atomic h.isAtomic i
  rw [exitSet, h.isTargetless, if_neg Bool.false_ne_true, h.domain]
  simp only [hnone]
  rfl

/-- What such a transition enters: the way up to the root, and in the regions on it where nothing has
been entered yet what is there by default. -/
theorem mem_addEntered_idle (h : d.Idle t) {i : Nat} :
    i ∈ d.addEntered history entry t ↔ i ∈ entry ∨ d.Within t.source i ∨
      ∃ p, d.Below t.source p ∧ ∃ c, d.Region p c ∧ ¬ d.Covered (entry.insert t.source) c ∧
        d.ByDefault c i := by
  have hup : ∀ {p}, p ∈ d.properAncestors t.source (some t.source) ↔ d.Below t.source p := by
    intro p
    rw [wf.mem_properAncestors]
    exact and_iff_left fun a ha hbelow => by cases ha; exact absurd hbelow (wf.not_below_self _)
  -- a source without children has no regions to open
  have hno : ∀ {c}, ¬ d.Region t.source c := fun hregion => by
    have := hregion.1
    simp [h.leaf] at this
  have hvisits : ∀ {v}, v ∈ d.visits (some t.source) t.source ↔
      (v.2 = true ∧ d.Below t.source v.1) ∨ v = (t.source, false) := by
    rintro ⟨p, mark⟩
    simp [visits, hup, eq_comm, and_comm]
  rw [addEntered, h.isTargetless, if_neg Bool.false_ne_true, h.effectiveTargets, h.domain,
    h.targets, foldl_addAbove]
  simp only [List.foldl_cons, List.foldl_nil, List.flatMap_singleton, h.enterState]
  rw [wf.mem_foldl_visit]
  · simp only [hvisits, NodeSet.mem_insert]
    constructor
    · rintro ((rfl | hi) | (⟨-, hbelow⟩ | hi) | ⟨v, ⟨-, hbelow⟩ | rfl, c, hregion, hnew⟩)
      · exact .inr (.inl (.inl rfl))
      · exact .inl hi
      · exact .inr (.inl (.inr hbelow))
      · cases hi
      · exact .inr (.inr ⟨v.1, hbelow, c, hregion, hnew⟩)
      · exact absurd hregion hno
    · rintro (hi | (rfl | hbelow) | ⟨p, hbelow, c, hregion, hnew⟩)
      · exact .inl (.inr hi)
      · exact .inl (.inl rfl)
      · exact .inr (.inl (.inl ⟨trivial, hbelow⟩))
      · exact .inr (.inr ⟨(p, true), .inl ⟨rfl, hbelow⟩, c, hregion, hnew⟩)
  · intro v hv c hregion
    exact wf.enters_enterState (wf.child_lt hregion.2.1) hregion.2.2
  · intro v hv c _ hwithin
    refine ⟨t.source, (NodeSet.mem_insert _ _ _).mpr (.inl rfl), ?_⟩
    rcases hvisits.mp hv with ⟨-, hbelow⟩ | rfl
    · exact .inr (wf.below_of_below_within hbelow hwithin)
    · exact hwithin

/-- A region that is covered by what is by default in another one, though no source lies in it, is
part of that one. -/
theorem byDefault_of_covered {c c' p' x' s i : Nat} (hregion' : d.Region p' c')
    (hx' : d.Below x' p') (hout' : ¬ d.Within x' c) (hs : d.ByDefault c' s)
    (hwithin : d.Within s c) (hi : d.ByDefault c i) : d.ByDefault c' i := by
  have hs' := wf.byDefault_within hs
  rcases wf.within_total hwithin hs' with (rfl | hbelow) | hbelow
  · exact hi
  · have hc : d.Filled .empty [] (some c') c := by
      rcases hs with rfl | hs
      · exact absurd (wf.below_of_within hwithin hbelow) (wf.not_below_self _)
      · have hunder : d.Under (some c') c := hbelow
        rcases hwithin with rfl | hsc
        · exact hs
        · exact (wf.filled_split hunder hsc hs).1
    rcases hi with rfl | hi
    · exact .inr hc
    · exact .inr (hc.trans hi)
  · -- then the source beside the other region would lie in this one
    have hqc := (wf.below_iff_of_parent (wf.mem_children.mp hregion'.2.1)).mp hbelow
    exact absurd (.inr (wf.below_of_below_within hx' hqc)) hout'

/-- What such transitions enter together: the ways from their sources up to the root, and what is by
default in the regions that they open. -/
theorem mem_entrySet_idle (h : ∀ t ∈ ts, d.Idle t) {i : Nat} :
    i ∈ d.entrySet history ts ↔ (∃ t ∈ ts, d.Within t.source i) ∨
      ∃ before t after, ts = before ++ t :: after ∧ ∃ c, d.Opens before t c ∧ d.ByDefault c i := by
  induction ts using List.reverseRecOn generalizing i with
  | nil => simp [entrySet]
  | append_singleton ts t ih =>
      have hbefore := fun {i} => ih (fun t' ht' => h t' (List.mem_append_left _ ht')) (i := i)
      have hentry : d.entrySet history (ts ++ [t]) =
          d.addEntered history (d.entrySet history ts) t := by
        rw [entrySet, List.foldl_append]
        rfl
      have hsource : ∀ t' ∈ ts ++ [t], t'.source ∈ (d.entrySet history ts).insert t.source := by
        intro t' ht'
        rw [NodeSet.mem_insert]
        rcases List.mem_append.mp ht' with ht' | ht'
        · exact .inr (hbefore.mpr (.inl ⟨t', ht', .inl rfl⟩))
        · exact .inl (by rw [List.mem_singleton.mp ht'])
      rw [hentry, wf.mem_addEntered_idle (h t (by simp)), exists_split_concat]
      constructor
      · rintro (hi | hi | ⟨p, hp, c, hregion, hno, hi⟩)
        · rcases hbefore.mp hi with ⟨t', ht', hwithin⟩ | hopened
          · exact .inl ⟨t', List.mem_append_left _ ht', hwithin⟩
          · exact .inr (.inl hopened)
        · exact .inl ⟨t, by simp, hi⟩
        · exact .inr (.inr ⟨c, ⟨p, hp, hregion, fun t' ht' hwithin =>
            hno ⟨t'.source, hsource t' ht', hwithin⟩⟩, hi⟩)
      · rintro (⟨t', ht', hwithin⟩ | hopened | ⟨c, ⟨p, hp, hregion, hout⟩, hi⟩)
        · rcases List.mem_append.mp ht' with ht' | ht'
          · exact .inl (hbefore.mpr (.inl ⟨t', ht', hwithin⟩))
          · rw [List.mem_singleton.mp ht'] at hwithin
            exact .inr (.inl hwithin)
        · exact .inl (hbefore.mpr (.inr hopened))
        · by_cases hcov : d.Covered ((d.entrySet history ts).insert t.source) c
          · -- it has been entered by default before, with a region around it
            obtain ⟨s, hs, hwithin⟩ := hcov
            rcases (NodeSet.mem_insert _ _ _).mp hs with rfl | hs
            · exact absurd hwithin (hout t (by simp))
            · rcases hbefore.mp hs with ⟨t', ht', hts⟩ |
                ⟨before, t', after, rfl, c', ⟨p', hp', hregion', hout'⟩, hs⟩
              · exact absurd (wf.within_trans hts hwithin) (hout t' (List.mem_append_left _ ht'))
              · refine .inl (hbefore.mpr (.inr ⟨before, t', after, rfl, c',
                  ⟨p', hp', hregion', hout'⟩, ?_⟩))
                exact wf.byDefault_of_covered hregion' hp' (hout t' (by simp)) hs hwithin hi
          · exact .inr (.inr ⟨p, hp, c, hregion, hcov, hi⟩)

/-! ## Leaves that are not final -/

/-- No state around an active leaf that is not final is complete. -/
theorem finalAt_of_leaf (hvalid : d.isValid config = true) {x : Nat} (hx : x ∈ config)
    (hk : (d.node x).kind = .atomic) : ∀ {fuel i : Nat}, d.Within x i →
      d.finalAt config fuel i = false
  | 0, _, _ => rfl
  | fuel + 1, i, hwithin => by
      rw [finalAt]
      rcases hwithin with rfl | hbelow
      · simp [hk]
      · obtain ⟨c, hc, hwithin⟩ := wf.exists_child hbelow
        have hmem : ∀ {j}, d.Within x j → j ∈ config := fun h =>
          wf.mem_of_within_closed (fun _ hi _ => wf.parent_mem_of_valid hvalid hi) h hx
        rcases wf.kind_of_below hbelow with hi | hi
        · -- the one active child lies around the leaf, so it is not final
          have hlt := Nat.lt_trans (wf.below_bounds hbelow).1 (wf.below_bounds hbelow).2
          obtain ⟨c', -, -, hunique⟩ := ((wf.isValidAt_iff hlt).mp
            (isValidAt_of_valid hvalid (hmem (.inr hbelow)))).2.1 hi
          have hnone : (d.node i).children.any
              (fun c => config.contains c && (d.node c).isFinal) = false := by
            refine List.any_eq_false.mpr fun c'' hc'' hfinal => ?_
            obtain ⟨hact, hfinal⟩ := Bool.and_eq_true_iff.mp hfinal
            have hsame : c = c'' := (hunique c hc (hmem hwithin)).trans (hunique c'' hc'' hact).symm
            have hkind : (d.node c).kind = .final := by
              simpa [hsame, StateNode.isFinal] using hfinal
            rcases hwithin with rfl | hbelow
            · simp [hk] at hkind
            · exact wf.not_below_of_atomic (by simp [StateNode.isAtomic, hkind]) x hbelow
          simp only [hi, hnone]
        · have hhist : (d.node c).isHistory = false := by
            rcases hwithin with rfl | hbelow
            · simp [StateNode.isHistory, hk]
            · exact wf.not_history_of_below hbelow
          simp only [hi]
          refine List.all_eq_false.mpr ⟨c, List.mem_filter.mpr ⟨hc, by simp [hhist]⟩, ?_⟩
          simp [finalAt_of_leaf hvalid hx hk hwithin]

end WellFormed

end Definition

namespace Machine

open StepM

variable {m : Machine} {w w' : Work} {event : Event} {ts : List Nat} {scope : Scope}
  {s : MachineSnapshot}

/-! ## Microsteps -/

theorem runTransitions_idle (event : Event) : ∀ {ts : List (Transition Logic)} {w : Work},
    (∀ t ∈ ts, t.actions = []) →
      ∃ journal, m.runTransitions event ts w = .ok () { w with journal }
  | [], w, _ => ⟨w.journal, rfl⟩
  | t :: rest, w, h => by
      have hexecute : m.execute t.actions event w = .ok () w := by
        rw [h t List.mem_cons_self, execute, List.map_nil, performAll]
        rfl
      obtain ⟨journal, hrest⟩ := runTransitions_idle event
        (w := { w with journal := .taken t.index :: w.journal })
        fun t' ht' => h t' (List.mem_cons_of_mem _ ht')
      exact ⟨journal, by rw [runTransitions, bind_of_ok hexecute, bind_of_ok (mark_ok _ _), hrest]⟩

/-- To enter nothing changes nothing while the machine is not complete. -/
theorem enter_nil
    (hroot : m.definition.isInFinalState w.snapshot.config Definition.rootIndex = false) :
    m.enter event [] w = .ok () w := by
  have hnone : m.enterStates event [] [] w = .ok () w := rfl
  rw [enter, bind_of_ok hnone, bind_of_ok (get_ok w)]
  simp only [hroot, Bool.false_eq_true, and_false, if_false]
  rfl

/-- Transitions from active leaves to themselves. -/
structure Idles (m : Machine) (config : Configuration) (ts : List Nat) : Prop where
  ne_nil : ts ≠ []
  lt : ∀ k ∈ ts, k < m.definition.transitions.size
  idle : ∀ k ∈ ts, m.definition.Idle (m.definition.transition k)
  active : ∀ k ∈ ts, (m.definition.transition k).source ∈ config

namespace Idles

variable (wf : m.definition.WellFormed) {config : Configuration} (h : m.Idles config ts)
include wf h

/-- None of them is forbidden. -/
theorem permitted_eq : m.definition.permitted ts = ts.map m.definition.transition := by
  refine List.filter_eq_self.mpr fun t ht => ?_
  obtain ⟨k, hk, rfl⟩ := List.mem_map.mp ht
  have htargets := (h.idle k hk).targets
  cases hforbidden : (m.definition.transition k).forbidden with
  | false => rfl
  | true =>
      rw [wf.forbidden_targets k (h.lt k hk) hforbidden] at htargets
      cases htargets

theorem permitted_idle : ∀ t ∈ m.definition.permitted ts, m.definition.Idle t := by
  rw [h.permitted_eq wf]
  intro t ht
  obtain ⟨k, hk, rfl⟩ := List.mem_map.mp ht
  exact h.idle k hk

/-- They leave nothing. -/
theorem leaving_nil (s : MachineSnapshot) :
    (m.leaving s (m.definition.permitted ts)).toList = [] := by
  refine List.eq_nil_iff_forall_not_mem.mpr fun i hi => ?_
  obtain ⟨t, ht, hexit⟩ := mem_leaving.mp ((NodeSet.mem_toList _ i).mp hi)
  rw [wf.exitSet_idle (h.permitted_idle wf t ht)] at hexit
  exact NodeSet.not_mem_empty i hexit

/-- In a valid configuration they enter nothing new exactly if the regions that they come by are as
they are by default. -/
theorem entrySet_subset_iff (hvalid : m.definition.isValid config = true)
    {history : HistoryValue} :
    (∀ i ∈ m.definition.entrySet history (m.definition.permitted ts), i ∈ config) ↔
      m.definition.Undisturbed config (ts.map m.definition.transition) := by
  have hidle : ∀ t ∈ ts.map m.definition.transition, m.definition.Idle t :=
    h.permitted_eq wf ▸ h.permitted_idle wf
  rw [h.permitted_eq wf]
  constructor
  · intro hsub before t after hsplit c hopens i hi
    exact hsub i ((wf.mem_entrySet_idle hidle).mpr
      (.inr ⟨before, t, after, hsplit, c, hopens, hi⟩))
  · intro hund i hi
    rcases (wf.mem_entrySet_idle hidle).mp hi with
      ⟨t, ht, hwithin⟩ | ⟨before, t, after, hsplit, c, hopens, hi⟩
    · obtain ⟨k, hk, rfl⟩ := List.mem_map.mp ht
      exact wf.mem_of_within_closed (fun _ hi _ => wf.parent_mem_of_valid hvalid hi) hwithin
        (h.active k hk)
    · exact hund before t after hsplit c hopens i hi

/-- A step of such transitions leaves the configuration as it is exactly if the regions that they come
by are as they are by default. -/
theorem microstep_config (hvalid : m.definition.isValid w.snapshot.config = true)
    (hconfig : w.snapshot.config = config) (hstep : m.microstep ts event w = .ok () w') :
    w'.snapshot.config = w.snapshot.config ↔
      m.definition.Undisturbed w.snapshot.config (ts.map m.definition.transition) := by
  subst hconfig
  rw [← h.entrySet_subset_iff wf hvalid]
  have hmem := (microstep_ok hstep).2
  constructor
  · intro hsame i hi
    exact hsame ▸ (hmem i).mpr (.inr hi)
  · intro hsub
    refine NodeSet.ext fun i => (hmem i).trans ⟨?_, fun hi => .inl ⟨hi, fun t ht => ?_⟩⟩
    · rintro (⟨hi, -⟩ | hi)
      · exact hi
      · exact hsub i hi
    · rw [wf.exitSet_idle (h.permitted_idle wf t ht)]
      exact NodeSet.not_mem_empty i

/-- If those regions are, there is nothing to enter. -/
theorem entering_nil (hvalid : m.definition.isValid config = true)
    (hund : m.definition.Undisturbed config (ts.map m.definition.transition))
    (history : HistoryValue) :
    (m.definition.entrySet history (m.definition.permitted ts)).toList.filter
      (fun state => !config.contains state) = [] := by
  refine List.filter_eq_nil_iff.mpr fun i hi hout => ?_
  have hmem := (h.entrySet_subset_iff wf hvalid).mpr hund i ((NodeSet.mem_toList _ i).mp hi)
  simp [(NodeSet.contains_eq_true i _).mpr hmem] at hout

/-- The machine is not complete, since one of the leaves is active and not final. -/
theorem incomplete (hvalid : m.definition.isValid config = true) :
    m.definition.isInFinalState config Definition.rootIndex = false := by
  obtain ⟨k, hk⟩ := List.exists_mem_of_ne_nil ts h.ne_nil
  exact wf.finalAt_of_leaf hvalid (h.active k hk) (h.idle k hk).leaf
    (wf.within_root (wf.source_lt k (h.lt k hk)))

/-- If those regions are as they are by default, the step goes through and leaves all as it is. -/
theorem microstep_rests (event : Event)
    (hvalid : m.definition.isValid w.snapshot.config = true) (hconfig : w.snapshot.config = config)
    (hund : m.definition.Undisturbed config (ts.map m.definition.transition)) :
    ∃ journal, m.microstep ts event w = .ok () { w with journal } := by
  subst hconfig
  have hpermitted : (ts.map m.definition.transition).filter (fun t => !t.forbidden) =
      m.definition.permitted ts := rfl
  have hsome : m.definition.permitted ts ≠ [] := by
    rw [h.permitted_eq wf]
    exact fun hnil => h.ne_nil (List.map_eq_nil_iff.mp hnil)
  let w₁ : Work := { w with
    journal := .microstep ((m.definition.permitted ts).map Transition.index) :: w.journal }
  have hremember : (modifySnapshot fun s => { s with
      history := m.definition.recordHistory s.config [] s.history }) w₁ = .ok () w₁ := rfl
  have hexit : m.exitStates event [] w₁ = .ok () w₁ := rfl
  obtain ⟨journal, hrun⟩ := runTransitions_idle (m := m) event (w := w₁)
    fun t ht => (h.permitted_idle wf t ht).actions
  refine ⟨journal, ?_⟩
  rw [microstep, hpermitted, if_neg (by simpa using hsome), bind_of_ok (mark_ok _ w),
    bind_of_ok (get_ok w₁), h.leaving_nil wf, List.reverse_nil, bind_of_ok hremember,
    bind_of_ok hexit, bind_of_ok hrun, bind_of_ok (get_ok _), h.entering_nil wf hvalid hund]
  exact enter_nil (h.incomplete wf hvalid)

end Idles

/-- The transitions that a machine selects, if they are from leaves to themselves. -/
theorem idles_of_select (wf : m.definition.WellFormed)
    (hselect : m.definition.select (m.situation s) event = .ok ts) (hsome : ts ≠ [])
    (hidle : ∀ k ∈ ts, m.definition.Idle (m.definition.transition k)) : m.Idles s.config ts := by
  have hsel := wf.selection_of_select hselect
  refine ⟨hsome, hsel.lt, hidle, fun k hk => ?_⟩
  obtain ⟨_, hpicked⟩ := hsel.picked
  obtain ⟨leaf, hleaf, -, hwithin⟩ := hpicked k hk
  rcases hwithin with rfl | hbelow
  · exact (NodeSet.mem_toList _ _).mp (List.mem_filter.mp hleaf).1
  · exact absurd hbelow (wf.not_below_of_atomic (hidle k hk).isAtomic leaf)

/-! ## Macrosteps -/

/-- An event that enables transitions from leaves to themselves only changes no configuration,
context or history of a machine that has nothing to do without an event, if the regions that these
transitions come by are as they are by default. If they are not, the step of these transitions
changes the configuration. -/
theorem idle_transitions_rest {json : Json} (hjson : Definition.ofJson json = .ok m.definition)
    (hactive : s.status = .active) (hvalid : m.definition.isValid s.config = true)
    (hselect : m.definition.select (m.situation s) event = .ok ts) (hsome : ts ≠ [])
    (hidle : ∀ k ∈ ts, m.definition.Idle (m.definition.transition k))
    (hquiet : m.definition.selectEventless (m.situation s) event = .ok []) :
    (m.definition.Undisturbed s.config (ts.map m.definition.transition) →
      ∀ scope, ∃ children, children.Sublist s.children ∧
        m.transition scope s event = (scope, .ok { s.refresh with
          children, actions := [], changed := !s.context.same s.context })) ∧
    ∀ (w w' : Work) (cause : Event), w.snapshot.config = s.config →
      m.microstep ts cause w = .ok () w' →
        (w'.snapshot.config = s.config ↔
          m.definition.Undisturbed s.config (ts.map m.definition.transition)) := by
  have wf := Definition.wellFormed_of_ofJson hjson
  have hidles := idles_of_select wf hselect hsome hidle
  refine ⟨fun hund scope => ?_, fun w w' cause hconfig hstep => ?_⟩
  · -- one round takes the event, and one more finds nothing left to do
    obtain ⟨fuel, hfuel⟩ : ∃ fuel, patience = fuel + 2 := ⟨patience - 2, rfl⟩
    let w := begin { scope with system := scope.system.pinning (s.children.map Prod.snd) } s
    have hrests : m.Rests event w := ⟨hactive, hquiet, rfl⟩
    obtain ⟨children, hrelease, hsublist⟩ := releaseCompleted_sublist event w
    let released : Work := { w with snapshot := { w.snapshot with children } }
    obtain ⟨journal, hstep⟩ := hidles.microstep_rests wf event
      (w := { released with journal := .handled event ts :: w.journal }) hvalid rfl hund
    let rested : Work := { released with journal }
    have hhandle : m.handle event released = .ok () rested :=
      (handle_of_select (w := released) hselect hsome).trans hstep
    have hrested : m.Rests event rested := ⟨hactive, hquiet, rfl⟩
    have hrun : m.transitionRun scope s event = .ok () rested := by
      rw [transitionRun, runStep, macrostep, hfuel, settle_of_rests hrests, bind_of_ok hrelease,
        bind_of_ok hhandle, settle_through hrested]
    have hchanged : hasChanged s rested.snapshot.refresh = !s.context.same s.context := by
      simp [hasChanged, MachineSnapshot.refresh, rested, released, w, begin]
    refine ⟨children, hsublist, ?_⟩
    rw [transition, if_pos hactive, hrun, outcome, finish, hchanged]
    rfl
  · rw [← hconfig] at hvalid ⊢
    exact hidles.microstep_config wf hvalid hconfig hstep

/-- A bell that rings from a leaf to itself, beside a lamp that can be lit. -/
def porchJson : Json :=
  .obj [("id", .str "porch"), ("type", .str "parallel"), ("states", .obj
    [("bell", .obj [("initial", .str "idle"), ("states", .obj
        [("idle", .obj [("on", .obj [("RING", .str "idle")])])])]),
      ("lamp", .obj [("initial", .str "off"), ("states", .obj
        [("off", .obj [("on", .obj [("PRESS", .str "on")])]), ("on", .obj [])])])])]

def porch : Machine where
  definition := (Definition.ofJson porchJson).toOption.getD default
  implementations := default
  spawn := default

/-- The lamp is off. -/
def porchDark : MachineSnapshot := (porch.initialState default .null).2.toOption.getD default

/-- The lamp is on. -/
def porchLit : MachineSnapshot :=
  (porch.transition default porchDark { name := "PRESS" }).2.toOption.getD default

def ring : Event := { name := "RING" }

theorem porch_ofJson : Definition.ofJson porchJson = .ok porch.definition := by
  have hread : (Definition.ofJson (L := Logic) porchJson).isOk = true := by decide +kernel
  exact ok_of_isOk hread

theorem porch_idle : ∀ k ∈ [0], porch.definition.Idle (porch.definition.transition k) := by
  intro k hk
  rw [List.mem_singleton.mp hk]
  exact ⟨by decide +kernel, by decide +kernel, by decide +kernel, by decide +kernel⟩

/-- To ring changes nothing while the lamp is off. -/
theorem dark_porch_rests : ∃ next, porch.transition default porchDark ring = (default, .ok next) ∧
    next.changed = false ∧ next.config = porchDark.config := by
  have hselect : porch.definition.select (porch.situation porchDark) ring = .ok [0] := by
    decide +kernel
  obtain ⟨hrests, hstep⟩ := idle_transitions_rest porch_ofJson (by decide +kernel)
    (by decide +kernel) hselect (by simp) porch_idle (by decide +kernel)
  have hok : ∃ w', porch.microstep [0] ring (begin default porchDark) = .ok () w' ∧
      w'.snapshot.config = porchDark.config := ⟨_, rfl, by decide +kernel⟩
  obtain ⟨w', hok, hsame⟩ := hok
  have hund := (hstep _ w' ring rfl hok).mp hsame
  obtain ⟨children, -, hnext⟩ := hrests hund default
  have hunchanged : (!porchDark.context.same porchDark.context) = false := by decide +kernel
  exact ⟨_, hnext, hunchanged, rfl⟩

/-- While it is on, to ring makes it both on and off. -/
theorem lit_porch_breaks : ¬∀ (m : Machine) (json : Json) (s : MachineSnapshot) (event : Event)
    (ts : List Nat), Definition.ofJson json = .ok m.definition → s.status = .active →
      m.definition.isValid s.config = true → m.definition.select (m.situation s) event = .ok ts →
      ts ≠ [] → (∀ k ∈ ts, m.definition.Idle (m.definition.transition k)) →
      m.definition.selectEventless (m.situation s) event = .ok [] → ∀ scope, ∃ scope' next,
        m.transition scope s event = (scope', .ok next) ∧ next.changed = false ∧
          next.config = s.config ∧ next.context = s.context ∧ next.history = s.history := by
  intro hall
  obtain ⟨scope', next, hnext, -, hsame, -⟩ := hall porch porchJson porchLit ring [0] porch_ofJson
    (by decide +kernel) (by decide +kernel) (by decide +kernel) (by simp) porch_idle
    (by decide +kernel) default
  have hconfig : ((porch.transition default porchLit ring).2.toOption.getD default).config ≠
      porchLit.config := by decide +kernel
  rw [hnext] at hconfig
  exact hconfig hsame

end Machine

end Statechart
