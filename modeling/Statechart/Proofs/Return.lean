import Statechart.Proofs.Microstep
import Statechart.Proofs.Recall

/-!
# Coming back through history

A history state that has remembered how its parent was left brings that back. `Restored` says what
this is in the parent's subtree. What was remembered fills the subtree with just that
(`filled_remembered`): all that was active if the history is deep, and the children that were active,
each with what it needs below it, if it is shallow. The main result is `microstep_restores`: while
the parent is not active, one transition to the history state alone restores it.
-/

namespace Statechart.Definition

variable {L : Type} (d : Definition L)

/-- What a history child brings back within its parent, from a configuration in which the parent
was active. -/
def Restored (config : Configuration) (parent : Nat) : HistoryKind → Nat → Prop
  | .deep, i => i ∈ config
  | .shallow, i => i = parent ∨
      ∃ c ∈ (d.node parent).children, c ∈ config ∧ d.Within i c ∧ i ∈ d.resolve .empty [c]

variable {d} {config : Configuration} {top : Option Nat}

namespace WellFormed

variable (wf : d.WellFormed)
include wf

/-! ## What was remembered -/

theorem mem_remembered_below {p t : Nat} {kind : HistoryKind}
    (h : t ∈ d.remembered config p kind) : t ∈ config ∧ d.Below t p := by
  cases kind with
  | deep =>
      have ht : t ∈ config ∧ (d.node t).isAtomic = true ∧ d.Below t p := by
        simpa [remembered] using h
      exact ⟨ht.1, ht.2.2⟩
  | shallow =>
      have ht : t ∈ (d.node p).children ∧ t ∈ config := by simpa [remembered] using h
      exact ⟨ht.2, wf.child_below ht.1⟩

/-- Where leaves are remembered, the states on the way to one are those that were active. -/
theorem targeted_leaves_iff (hreg : d.HasRegions) (hconfig : d.Possible config) {p i : Nat}
    (hatomic : (d.node p).isAtomic = false) (hi : d.Within i p) :
    d.Targeted (d.remembered config p .deep) i ↔ i ∈ config := by
  constructor
  · rintro ⟨t, ht, hwithin⟩
    exact wf.mem_of_within hconfig hwithin (wf.mem_remembered_below ht).1
  · intro hact
    have hmem : ∀ l ∈ config, (d.node l).isAtomic = true → d.Below l p →
        l ∈ d.remembered config p .deep := by
      intro l hl hleaf hbelow
      simp [remembered, hl, hleaf, hbelow]
    cases hleaf : (d.node i).isAtomic with
    | true =>
        have hne : i ≠ p := by
          rintro rfl
          rw [hatomic] at hleaf
          cases hleaf
        exact ⟨i, hmem i hact hleaf (hi.resolve_left hne), .inl rfl⟩
    | false =>
        obtain ⟨l, hl, hlatomic, hbelow⟩ := wf.exists_active_leaf hreg hconfig hact hleaf
        exact ⟨l, hmem l hl hlatomic (wf.below_of_below_within hbelow hi), .inr hbelow⟩

/-- Where children are remembered, those that were active are the targets. -/
theorem targeted_child_iff {p c : Nat} (hc : c ∈ (d.node p).children) :
    d.Targeted (d.remembered config p .shallow) c ↔ c ∈ config := by
  have hmem : ∀ t, t ∈ d.remembered config p .shallow ↔ t ∈ (d.node p).children ∧ t ∈ config := by
    simp [remembered]
  constructor
  · rintro ⟨t, ht, hwithin⟩
    obtain ⟨hchild, hact⟩ := (hmem t).mp ht
    rwa [← wf.child_unique hchild hc (.inl rfl) hwithin]
  · exact fun hact => ⟨c, (hmem c).mpr ⟨hc, hact⟩, .inl rfl⟩

omit wf in
/-- Where the children of a state are targeted exactly if they were active, those are chosen. -/
theorem chosen_iff_active (hconfig : d.Possible config) {p : Nat} (hp : p ∈ config)
    {targets : List Nat} (htargeted : ∀ c ∈ (d.node p).children,
      (d.Targeted targets c ↔ c ∈ config)) {c : Nat} (hc : c ∈ (d.node p).children) :
    d.Chosen .empty targets c (some p) ↔ c ∈ config := by
  constructor
  · rintro (ht | ⟨hk, hno⟩ | ⟨hk, hno, -⟩)
    · exact (htargeted c hc).mp ht
    · exact hconfig.parallel p hp hk c hc hno
    · -- some child was active, so the default one is not asked for
      obtain ⟨c', hc', hact, -⟩ := hconfig.compound p hp hk
      exact absurd ((htargeted c' hc').mpr hact) (hno c' hc')
  · exact fun hact => .inl ((htargeted c hc).mpr hact)

/-! ## What it fills -/

/-- The leaves of a subtree fill it with all that was active there. -/
theorem filled_leaves_iff (hreg : d.HasRegions) (hconfig : d.Possible config) {p i : Nat}
    (hp : p ∈ config) (hatomic : (d.node p).isAtomic = false) (htop : d.Under top p)
    (hi : d.Within i p) :
    d.Filled .empty (d.remembered config p .deep) top i ↔ i ∈ config := by
  have htargeted := fun {i} => wf.targeted_leaves_iff hreg hconfig hatomic (i := i)
  -- induction from the top of the subtree down
  induction i using Nat.strongRecOn with
  | _ i ih =>
      constructor
      · intro h
        rcases hi with rfl | hbelow
        · exact hp
        · obtain ⟨q, hq, hwithin⟩ := wf.below_iff_parent.mp hbelow
          have hact : q ∈ config := by
            rcases hwithin with rfl | hqp
            · exact hp
            · have hqtop := wf.under_of_below hqp htop
              have hiq : d.Below i q := wf.child_below (wf.mem_children.mpr hq)
              have hfilled := (wf.filled_split hqtop hiq h).1
              exact (ih q (wf.parent_lt hq).1 (.inr hqp)).mp hfilled
          have hchild := wf.mem_children.mpr hq
          have hchosen := h.parent.1
          rw [hq] at hchosen
          refine (chosen_iff_active hconfig hact (fun c hc => htargeted ?_) hchild).mp hchosen
          exact .inr (wf.below_of_below_within (wf.child_below hc) hwithin)
      · intro hact
        have hunder : d.Under top i := by
          rcases hi with rfl | hbelow
          · exact htop
          · exact wf.under_of_below hbelow htop
        exact wf.filled_of_targeted ((htargeted hi).mpr hact) hunder

/-- A single target fills its subtree with what is there by default. -/
theorem filled_singleton_iff {c i : Nat} (htop : d.Under top c) (hi : d.Within i c) :
    d.Filled .empty [c] top i ↔ d.ByDefault c i := by
  have hno : ∀ t ∈ [c], ¬ d.Below t c := by
    intro t ht
    rw [List.mem_singleton.mp ht]
    exact wf.not_below_self c
  have hself : d.Filled .empty [c] top c :=
    wf.filled_of_targeted (targeted_singleton.mpr (.inl rfl)) htop
  constructor
  · intro h
    rcases hi with rfl | hbelow
    · exact .inl rfl
    · exact .inr ((wf.filled_of_untargeted hno).mp (wf.filled_split htop hbelow h).2)
  · rintro (rfl | h)
    · exact hself
    · exact hself.trans ((wf.filled_of_untargeted hno).mpr h)

/-- The children of a state that were active fill its subtree with themselves and what is in them by
default. -/
theorem filled_children_iff (hreg : d.HasRegions) (hconfig : d.Possible config) {p i : Nat}
    (hp : p ∈ config) (hatomic : (d.node p).isAtomic = false) (htop : d.Under top p)
    (hi : d.Within i p) :
    d.Filled .empty (d.remembered config p .shallow) top i ↔
      i = p ∨ ∃ c ∈ (d.node p).children, c ∈ config ∧ d.ByDefault c i := by
  have hchosen := fun {c} => chosen_iff_active hconfig hp
    (fun c hc => wf.targeted_child_iff hc) (c := c)
  have hinside : ∀ c ∈ (d.node p).children, ∀ i,
      d.Filled .empty (d.remembered config p .shallow) (some c) i ↔
        d.Filled .empty [] (some c) i := by
    intro c hc i
    refine wf.filled_of_untargeted fun t ht hbelow => ?_
    have hchild : t ∈ (d.node p).children := by
      have ht' : t ∈ (d.node p).children ∧ t ∈ config := by simpa [remembered] using ht
      exact ht'.1
    -- children of one state do not lie below each other
    have heq := wf.child_unique hchild hc (.inl rfl) (.inr hbelow)
    rw [heq] at hbelow
    exact wf.not_below_self c hbelow
  have hself : d.Filled .empty (d.remembered config p .shallow) top p := by
    obtain ⟨c, hc, hact⟩ := exists_active_child hreg hconfig hp hatomic
    refine wf.filled_of_targeted ⟨c, ?_, .inr (wf.child_below hc)⟩ htop
    simp [remembered, hc, hact]
  constructor
  · intro h
    rcases hi with rfl | hbelow
    · exact .inl rfl
    · obtain ⟨c, hc, hc', hin⟩ := wf.filled_some_iff.mp (wf.filled_split htop hbelow h).2
      refine .inr ⟨c, hc, (hchosen hc).mp hc', ?_⟩
      exact hin.imp_right (hinside c hc i).mp
  · rintro (rfl | ⟨c, hc, hact, hin⟩)
    · exact hself
    · have hcf := (wf.filled_child_iff hc (.inr hself)).mpr ((hchosen hc).mpr hact)
      rcases hin with rfl | hin
      · exact hcf
      · exact hcf.trans ((hinside c hc i).mpr hin)

/-- What was remembered of a state fills its subtree with what its history child brings back. -/
theorem filled_remembered (hreg : d.HasRegions) (hconfig : d.Possible config) {p i : Nat}
    (hp : p ∈ config) (hatomic : (d.node p).isAtomic = false) (htop : d.Under top p)
    (hi : d.Within i p) (kind : HistoryKind) :
    d.Filled .empty (d.remembered config p kind) top i ↔ d.Restored config p kind i := by
  cases kind with
  | deep => exact wf.filled_leaves_iff hreg hconfig hp hatomic htop hi
  | shallow =>
      rw [wf.filled_children_iff hreg hconfig hp hatomic htop hi, Restored]
      refine or_congr_right (exists_congr fun c => and_congr_right fun hc =>
        and_congr_right fun _ => ?_)
      have hlt : ∀ t ∈ [c], t < d.nodes.size := by simpa using wf.child_lt hc
      have hroot : d.Under none c := wf.child_lt hc
      rw [wf.mem_resolve hlt (by simp)]
      constructor
      · intro h
        have hin := wf.byDefault_within h
        exact ⟨hin, (wf.filled_singleton_iff hroot hin).mpr h⟩
      · exact fun ⟨hin, h⟩ => (wf.filled_singleton_iff hroot hin).mp h

/-! ## The transition -/

section

variable {active : Configuration} {history : HistoryValue} {t : Transition L} {h p : Nat}
  {kind : HistoryKind}

/-- What the history state of a state that was left lands on. -/
theorem landing_remembered (hreg : d.HasRegions) (hconfig : d.Possible config)
    (hp : (d.node h).parent = some p) (hact : p ∈ config) (hhist : (d.node h).isHistory = true)
    (htargets : t.targets = [h])
    (hfind : SortedMap.find? h history = some (d.remembered config p kind)) :
    d.Landing history t (d.remembered config p kind)
      ((d.remembered config p kind).flatMap (d.visits (d.node h).parent)) := by
  have hstands := wf.standsFor_remembered hreg hconfig hp hact kind
  exact
    { leads := ⟨h, htargets, .recorded hhist hfind hstands.agreeing.history⟩
      lt := hstands.agreeing.lt
      history := hstands.agreeing.history
      ne_nil := hstands.ne_nil
      scattered := hstands.scattered
      visits := hstands.visits }

/-- From outside, a transition into a state has its domain above that state. -/
theorem below_domain_of_outside {targets : List Nat} {vs : List (Nat × Bool)}
    (hland : d.Landing history t targets vs) (hbelow : ∀ s ∈ targets, d.Below s p)
    (hout : ¬ d.Within t.source p) {a : Nat} (ha : d.domain history t = some a) :
    d.Below p a := by
  obtain ⟨s, hs⟩ := List.exists_mem_of_ne_nil targets hland.ne_nil
  have hsource := (wf.domain_spec ha).1
  have hsa := hland.within_domain wf hs ha
  rcases wf.within_total (.inr (hbelow s hs)) hsa with (rfl | hpa) | hap
  · exact absurd hsource hout
  · exact hpa
  · exact absurd (wf.within_trans hsource (.inr hap)) hout

/-- Through history, a transition from outside enters nothing beside its domain. -/
theorem confined_of_outside {targets : List Nat} (hp : (d.node h).parent = some p)
    (hland : d.Landing history t targets (targets.flatMap (d.visits (d.node h).parent)))
    (hbelow : ∀ s ∈ targets, d.Below s p) (hout : ¬ d.Within t.source p) :
    d.Confined history t := by
  intro i hi a ha
  have hpa := wf.below_domain_of_outside hland hbelow hout ha
  -- a climb to a state that lies in the domain stays in the domain
  have hclimb : ∀ b s, d.Within b a → d.Below s b → ∀ v ∈ d.visits (some b) s,
      d.Within v.1 a ∧ (v.2 = true → d.Below v.1 a) := by
    intro b s hb hs v hv
    rcases List.mem_append.mp hv with hv | hv
    · obtain ⟨z, hz, rfl⟩ := List.mem_map.mp hv
      have hza := wf.below_of_below_within (((wf.mem_properAncestors _).mp hz).2 b rfl hs) hb
      exact ⟨.inr hza, fun _ => hza⟩
    · simp only [Option.toList_some, List.map_singleton, List.mem_singleton] at hv
      subst hv
      exact ⟨hb, fun hend => absurd hend Bool.false_ne_true⟩
  have hvisits : ∀ v ∈ targets.flatMap (d.visits (d.node h).parent) ++
      targets.flatMap (d.visits (d.domain history t)),
        d.Within v.1 a ∧ (v.2 = true → d.Below v.1 a) := by
    intro v hv
    rcases List.mem_append.mp hv with hv | hv
    · obtain ⟨s, hs, hv⟩ := List.mem_flatMap.mp hv
      rw [hp] at hv
      exact hclimb p s (.inr hpa) (hbelow s hs) v hv
    · obtain ⟨s, hs, hv⟩ := List.mem_flatMap.mp hv
      rw [ha] at hv
      exact hclimb a s (.inl rfl) (wf.below_trans (hbelow s hs) hpa) v hv
  left
  rcases (hland.mem_addEntered_empty wf).mp hi with hi | ⟨s, hs, hi⟩ | hi |
    ⟨v, hv, c, hregion, -, hi⟩
  · exact absurd hi (NodeSet.not_mem_empty i)
  · exact wf.below_of_within (wf.byDefault_within hi) (wf.below_trans (hbelow s hs) hpa)
  · exact (hvisits _ hi).2 rfl
  · exact wf.below_of_within (wf.byDefault_within hi)
      (wf.below_of_below_within (wf.child_below hregion.2.1) (hvisits v hv).1)

/-- A transition from outside to a history state that has remembered something is a move. -/
theorem move_of_outside (hreg : d.HasRegions) (hconfig : d.Possible config)
    (hp : (d.node h).parent = some p) (hact : p ∈ config) (hhist : (d.node h).isHistory = true)
    (htargets : t.targets = [h]) {before after : HistoryValue}
    (hbefore : SortedMap.find? h before = some (d.remembered config p kind))
    (hafter : SortedMap.find? h after = some (d.remembered config p kind))
    (hsource : t.source ∈ active) (hout : ¬ d.Within t.source p) :
    d.Move active before after t := by
  have hland := wf.landing_remembered hreg hconfig hp hact hhist htargets hbefore
  have hland' := wf.landing_remembered hreg hconfig hp hact hhist htargets hafter
  have hbelow : ∀ s ∈ d.remembered config p kind, d.Below s p :=
    fun s hs => (wf.mem_remembered_below hs).2
  exact
    { source_mem := hsource
      landing := ⟨_, _, hland', wf.agreeing_of_possible hconfig
        fun s hs => (wf.mem_remembered_below hs).1⟩
      confined := wf.confined_of_outside hp hland' hbelow hout
      domain_eq := domain_congr (hland.effectiveTargets_eq.trans hland'.effectiveTargets_eq.symm) }

/-- A transition with a target that is taken alone is carried out. -/
theorem permitted_of_target {k : Nat} (htargets : (d.transition k).targets = [h]) :
    d.permitted [k] = [d.transition k] ∧ (d.transition k).isTargetless = false := by
  have hlt : k < d.transitions.size := by
    by_contra hno
    simp only [transition, Array.getElem?_eq_none (Nat.le_of_not_lt hno), Option.getD_none]
      at htargets
    cases htargets
  have hallowed : (d.transition k).forbidden = false := by
    by_contra hforbidden
    rw [wf.forbidden_targets k hlt (by simpa using hforbidden)] at htargets
    cases htargets
  exact ⟨by simp [permitted, hallowed], by simp [Transition.isTargetless, htargets]⟩

/-- Where what was remembered of a state is filled in from above, the state is restored. -/
theorem restored_of_refilled (hreg : d.HasRegions) (hconfig : d.Possible config)
    (hp : p ∈ config) (hatomic : (d.node p).isAtomic = false) {next : Configuration}
    (hnext : d.Refilled .empty active [(top, d.remembered config p kind)] next)
    (htop : d.Under top p) {i : Nat} (hi : d.Within i p) :
    i ∈ next ↔ d.Restored config p kind i := by
  have hunder : d.Under top i := by
    rcases hi with rfl | hbelow
    · exact htop
    · exact wf.under_of_below hbelow htop
  rw [hnext.mem, ← wf.filled_remembered hreg hconfig hp hatomic htop hi kind]
  constructor
  · rintro (⟨-, hno⟩ | ⟨l, hl, hfilled⟩)
    · exact absurd hunder (hno _ List.mem_cons_self)
    · rwa [List.mem_singleton.mp hl] at hfilled
  · exact fun hfilled => .inr ⟨_, List.mem_cons_self, hfilled⟩

end

end WellFormed

end Statechart.Definition

namespace Statechart.Machine

variable {m : Machine} {w w' : Work} {event : Event}

/-- A step leaves only what is active, so what is remembered for a state that is not stays. -/
theorem historyAfter_of_inactive (wf : m.definition.WellFormed)
    (hactive : m.definition.Possible w.snapshot.config) {ts : List (Transition Logic)} {h p : Nat}
    (hp : (m.definition.node h).parent = some p) {kind : HistoryKind}
    (hkind : (m.definition.node h).history = some kind) (hno : p ∉ w.snapshot.config) :
    SortedMap.find? h (m.historyAfter w.snapshot ts) = SortedMap.find? h w.snapshot.history := by
  rw [historyAfter, wf.find?_recordHistory hp hkind, if_neg]
  intro hmem
  rw [List.mem_reverse, NodeSet.mem_toList, mem_leaving] at hmem
  obtain ⟨t, -, hexit⟩ := hmem
  exact hno (Definition.WellFormed.of_mem_exitSet hactive hexit).2.1

/-- A step of one transition with a target fills the subtree of its domain anew. -/
theorem refilled_of_single (wf : m.definition.WellFormed)
    (hactive : m.definition.Possible w.snapshot.config) {t h : Nat}
    (htargets : (m.definition.transition t).targets = [h])
    (hmove : m.definition.Move w.snapshot.config w.snapshot.history
      (m.historyAfter w.snapshot [m.definition.transition t]) (m.definition.transition t))
    (hstep : m.microstep [t] event w = .ok () w') :
    m.definition.Refilled .empty w.snapshot.config
      [(m.definition.domain (m.historyAfter w.snapshot [m.definition.transition t])
          (m.definition.transition t),
        m.definition.effectiveTargets (m.historyAfter w.snapshot [m.definition.transition t])
          (m.definition.transition t))] w'.snapshot.config := by
  obtain ⟨hpermitted, hless⟩ := wf.permitted_of_target htargets
  have hmoves : ∀ t' ∈ m.definition.permitted [t], t'.isTargetless = false →
      m.definition.Move w.snapshot.config w.snapshot.history
        (m.historyAfter w.snapshot (m.definition.permitted [t])) t' := by
    rw [hpermitted]
    intro t' ht' _
    rw [List.mem_singleton.mp ht']
    exact hmove
  have hind : m.definition.Independent (m.historyAfter w.snapshot (m.definition.permitted [t]))
      (m.definition.permitted [t]) := by
    rw [hpermitted]
    exact List.pairwise_singleton _ _
  have hrefilled := microstep_refills wf hactive hmoves hind hstep
  rw [hpermitted] at hrefilled
  simpa [Definition.refills, hless] using hrefilled

/-- Once a state has been left, and its history child has recorded this, a transition to that child
alone restores in the state's subtree what was active there, if the history is deep, and otherwise
the state with its children that were active, each completed by default. -/
theorem microstep_restores {json : Json} (hdef : Definition.ofJson json = .ok m.definition)
    (hreg : m.definition.HasRegions)
    {config : Configuration} (hvalid : m.definition.isValid config = true)
    (hstates : ∀ i ∈ config, i < m.definition.nodes.size) {parent h : Nat}
    (hparent : parent ∈ config) (hchild : h ∈ (m.definition.node parent).children)
    {kind : HistoryKind} (hkind : (m.definition.node h).history = some kind)
    {earlier : HistoryValue} {exiting : List Nat} (hexiting : parent ∈ exiting)
    (hvalid' : m.definition.isValid w.snapshot.config = true)
    (hstates' : ∀ i ∈ w.snapshot.config, i < m.definition.nodes.size)
    (hleft : parent ∉ w.snapshot.config)
    (hrecord : SortedMap.find? h w.snapshot.history =
      SortedMap.find? h (m.definition.recordHistory config exiting earlier))
    {t : Nat} (hsource : (m.definition.transition t).source ∈ w.snapshot.config)
    (htargets : (m.definition.transition t).targets = [h])
    (hstep : m.microstep [t] event w = .ok () w') :
    m.definition.isValid w'.snapshot.config = true ∧
    ∀ i, m.definition.Within i parent →
      (i ∈ w'.snapshot.config ↔ m.definition.Restored config parent kind i) := by
  have wf := Definition.wellFormed_of_ofJson hdef
  have nonempty : ∀ {s : Configuration} {i : Nat}, i ∈ s → s ≠ .empty := by
    rintro s i hi rfl
    exact NodeSet.not_mem_empty i hi
  have hconfig := wf.possible_iff.mpr ⟨hvalid, nonempty hparent, hstates⟩
  have hactive := wf.possible_iff.mpr ⟨hvalid', nonempty hsource, hstates'⟩
  have hp := wf.mem_children.mp hchild
  have hhist : (m.definition.node h).isHistory = true := by
    rw [← wf.history_isSome h, hkind]
    rfl
  have hatomic : (m.definition.node parent).isAtomic = false := by
    by_contra hno
    exact wf.not_below_of_atomic (by simpa using hno) h (wf.child_below hchild)
  have hout : ¬ m.definition.Within (m.definition.transition t).source parent :=
    fun hwithin => hleft (wf.mem_of_within hactive hwithin hsource)
  -- what was recorded is still there when the step enters states
  have hbefore : SortedMap.find? h w.snapshot.history =
      some (m.definition.remembered config parent kind) := by
    rw [hrecord, wf.find?_recordHistory hp hkind, if_pos hexiting]
  have hafter : SortedMap.find? h (m.historyAfter w.snapshot [m.definition.transition t]) =
      some (m.definition.remembered config parent kind) :=
    (historyAfter_of_inactive wf hactive hp hkind hleft).trans hbefore
  have hland := wf.landing_remembered hreg hconfig hp hparent hhist htargets hafter
  have hmove :=
    wf.move_of_outside hreg hconfig hp hparent hhist htargets hbefore hafter hsource hout
  have hrefilled := refilled_of_single wf hactive htargets hmove hstep
  rw [hland.effectiveTargets_eq] at hrefilled
  refine ⟨(wf.possible_iff.mp (hrefilled.possible wf hactive)).1, fun i hi => ?_⟩
  refine wf.restored_of_refilled hreg hconfig hparent hatomic hrefilled ?_ hi
  cases htop : m.definition.domain (m.historyAfter w.snapshot [m.definition.transition t])
      (m.definition.transition t) with
  | none => exact hconfig.lt parent hparent
  | some a =>
      exact wf.below_domain_of_outside hland (fun s hs => (wf.mem_remembered_below hs).2) hout htop

/-- A player that remembers how it was set when it is switched off. -/
def playerJson : Json :=
  let knob (first second : String) : Json := .obj [("initial", .str first), ("states",
    .obj [(first, .obj []), (second, .obj [])])]
  let back : Json := .obj [("type", .str "history"), ("history", .str "deep")]
  let on : Json := .obj [("type", .str "parallel"), ("states",
    .obj [("sound", knob "soft" "loud"), ("light", knob "dim" "bright"), ("back", back)])]
  let off : Json := .obj [("on", .obj [("RESUME", .str "on.back")])]
  .obj [("initial", .str "off"), ("states", .obj [("off", off), ("on", on)])]

/-- The machine of the player, with nothing supplied. -/
def player : Machine where
  definition := (Definition.ofJson playerJson).toOption.getD default
  implementations := default
  spawn := default

/-- The player when it is loud and bright. -/
def playing : Configuration := player.definition.resolve .empty [5, 8]

/-- The player when it was playing and is switched off. -/
def switchedOff : Work :=
  { (default : Work) with
    snapshot := { (default : MachineSnapshot) with
      config := player.definition.resolve .empty [1]
      history := player.definition.recordHistory playing [8, 6, 5, 3, 2] [] } }

set_option maxRecDepth 100000 in
theorem player_hasRegions : player.definition.HasRegions := by
  have hall : (List.range player.definition.nodes.size).all (fun p =>
      (player.definition.node p).kind ≠ .parallel ||
        (player.definition.node p).children.any fun c =>
          !(player.definition.node c).isHistory) = true := rfl
  intro p hk
  have hlt : p < player.definition.nodes.size := by
    by_contra hno
    rw [Definition.node_of_size_le (Nat.le_of_not_lt hno)] at hk
    cases hk
  simpa [hk] using List.all_eq_true.mp hall p (List.mem_range.mpr hlt)

set_option maxRecDepth 100000 in
/-- Switched on again, the player is loud and bright. -/
theorem player_resumes : ∃ w', player.microstep [0] default switchedOff = .ok () w' ∧
    player.definition.isValid w'.snapshot.config = true ∧
      5 ∈ w'.snapshot.config ∧ 8 ∈ w'.snapshot.config ∧ 4 ∉ w'.snapshot.config := by
  have hdef : (Definition.ofJson (L := Logic) playerJson).isOk = true := rfl
  have hstates : playing.toList.all (· < player.definition.nodes.size) = true := rfl
  have hstates' : switchedOff.snapshot.config.toList.all (· < player.definition.nodes.size) = true :=
    rfl
  have hlt : ∀ {config : Configuration}, config.toList.all (· < player.definition.nodes.size) →
      ∀ i ∈ config, i < player.definition.nodes.size := fun hall i hi => by
    simpa using List.all_eq_true.mp hall i ((NodeSet.mem_toList _ i).mpr hi)
  obtain ⟨w', hstep⟩ : ∃ w', player.microstep [0] default switchedOff = .ok () w' := ⟨_, rfl⟩
  -- the player was left with everything below it
  have hchild : 9 ∈ (player.definition.node 2).children := by decide
  have hexiting : 2 ∈ [8, 6, 5, 3, 2] := by decide
  have hrecord : SortedMap.find? 9 switchedOff.snapshot.history =
      SortedMap.find? 9 (player.definition.recordHistory playing [8, 6, 5, 3, 2] []) := rfl
  obtain ⟨hvalid, hrestored⟩ := microstep_restores (ok_of_isOk hdef) player_hasRegions rfl
    (hlt hstates) rfl hchild rfl hexiting rfl (hlt hstates') (by decide) hrecord rfl rfl hstep
  refine ⟨w', hstep, hvalid, (hrestored 5 (.inr rfl)).mpr rfl, (hrestored 8 (.inr rfl)).mpr rfl,
    fun h => ?_⟩
  have hsoft : 4 ∉ playing := by decide
  exact hsoft ((hrestored 4 (.inr rfl)).mp h)

end Statechart.Machine
