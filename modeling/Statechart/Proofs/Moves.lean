import Mathlib.Data.List.Pairwise
import Statechart.Proofs.Targets

/-!
# Transitions taken together

Transitions whose domains lie apart do not disturb each other. `entersAll` says what they enter
together, and `refilled_of_moves` what they make of a configuration: the subtrees of their domains
are filled anew, each around the targets of its transition, and nothing else changes.
-/

namespace Statechart.Definition

variable {L : Type} (d : Definition L)

/-- Taken alone, a transition enters nothing beside its domain. -/
def Confined (history : HistoryValue) (t : Transition L) : Prop :=
  ∀ i ∈ d.addEntered history .empty t, ∀ a, d.domain history t = some a →
    d.Below i a ∨ d.Within a i

/-- What makes a transition change a configuration in its domain only. The history before the step
settles the domain and the one after it the targets. -/
structure Move (config : Configuration) (before after : HistoryValue) (t : Transition L) :
    Prop where
  source_mem : t.source ∈ config
  landing : ∃ targets vs, d.Landing after t targets vs ∧ d.Agreeing targets
  confined : d.Confined after t
  domain_eq : d.domain before t = d.domain after t

/-- Transitions that have targets, with domains that lie apart. -/
def Independent (history : HistoryValue) (ts : List (Transition L)) : Prop :=
  ts.Pairwise fun t t' => t.isTargetless = false → t'.isTargetless = false →
    d.Apart (d.domain history t) (d.domain history t')

/-- The domains of transitions that have targets, with the states that the targets lead to. -/
def refills (history : HistoryValue) (ts : List (Transition L)) : List (Option Nat × List Nat) :=
  (ts.filter fun t => !t.isTargetless).map fun t =>
    (d.domain history t, d.effectiveTargets history t)

/-- A state lies under the domain of a transition that has targets, or around it. -/
def Touches (history : HistoryValue) (t : Transition L) (i : Nat) : Prop :=
  t.isTargetless = false ∧
    (d.Under (d.domain history t) i ∨ ∃ a, d.domain history t = some a ∧ d.Within a i)

/-- Nothing of a set lies under the domain of a transition, or is the domain. -/
def Fresh (history : HistoryValue) (entry : Configuration) (t : Transition L) : Prop :=
  ∀ s ∈ entry, ¬ d.Under (d.domain history t) s ∧ d.domain history t ≠ some s

/-- What transitions enter one after the other: each of them what is filled under its domain around
its targets, and beside that only states that lie around a domain. -/
structure EntersAll (history : HistoryValue) (ts : List (Transition L))
    (entry entered : Configuration) : Prop where
  mono : ∀ i ∈ entry, i ∈ entered
  inside : ∀ t ∈ ts, t.isTargetless = false → ∀ i, d.Under (d.domain history t) i →
    (i ∈ entered ↔ d.Filled .empty (d.effectiveTargets history t) (d.domain history t) i)
  outside : ∀ i ∈ entered, i ∈ entry ∨ ∃ t ∈ ts, d.Touches history t i

variable {d} {config : Configuration} {before after : HistoryValue}

theorem mem_refills {history : HistoryValue} {ts : List (Transition L)}
    {l : Option Nat × List Nat} : l ∈ d.refills history ts ↔ ∃ t ∈ ts, t.isTargetless = false ∧
      (d.domain history t, d.effectiveTargets history t) = l := by
  simp [refills, and_assoc]

theorem addEntered_of_targetless {history : HistoryValue} {entry : Configuration}
    {t : Transition L} (h : t.isTargetless = true) : d.addEntered history entry t = entry := by
  rw [addEntered, if_pos h]

namespace WellFormed

variable (wf : d.WellFormed)
include wf

/-! ## Entering together -/

/-- What a confined transition enters is neither at nor under a domain apart from its own. -/
theorem fresh_of_apart {history : HistoryValue} {t t' : Transition L}
    (hconf : d.Confined history t)
    (hapart : d.Apart (d.domain history t) (d.domain history t')) :
    d.Fresh history (d.addEntered history .empty t) t' := by
  intro s hs
  obtain ⟨a, b, ha, hb, hab, hba⟩ := hapart
  have hnot : ¬ d.Within s b := by
    intro hsb
    rcases hconf s hs a ha with hbelow | hwithin
    · rcases wf.within_total (.inr hbelow) hsb with h | h
      · exact hab h
      · exact hba (.inr h)
    · exact hab (wf.within_trans hwithin hsb)
  rw [hb]
  refine ⟨fun h => hnot (.inr h), fun h => hnot ?_⟩
  cases h
  exact .inl rfl

/-- What a confined transition enters lies under its domain or around it. -/
theorem touches_of_confined {history : HistoryValue} {t : Transition L} {targets : List Nat}
    {vs : List (Nat × Bool)} (hless : t.isTargetless = false) (hconf : d.Confined history t)
    (hl : d.Landing history t targets vs) {i : Nat} (hi : i ∈ d.addEntered history .empty t) :
    d.Touches history t i := by
  refine ⟨hless, ?_⟩
  cases hdom : d.domain history t with
  | none => exact .inl (hl.addEntered_lt wf hi)
  | some a =>
      rcases hconf i hi a hdom with h | h
      · exact .inl h
      · exact .inr ⟨a, rfl, h⟩

/-- What lies under one domain is not touched by a transition whose domain lies apart. -/
theorem not_touches_of_apart {history : HistoryValue} {t t' : Transition L} {i : Nat}
    (hapart : d.Apart (d.domain history t) (d.domain history t'))
    (hi : d.Under (d.domain history t) i) : ¬ d.Touches history t' i := by
  rintro ⟨-, h | ⟨b, hb, hbi⟩⟩
  · exact wf.apart_under hapart hi h
  · obtain ⟨a, b', ha, hb', -, hba⟩ := hapart
    rw [hb] at hb'
    cases hb'
    rw [ha] at hi
    exact hba (.inr (wf.below_of_within hbi hi))

omit wf in
/-- A transition without targets enters nothing. -/
theorem entersAll_skip {history : HistoryValue} {t : Transition L} {ts : List (Transition L)}
    {entry entered : Configuration} (h : d.EntersAll history ts entry entered)
    (hless : t.isTargetless = true) : d.EntersAll history (t :: ts) entry entered where
  mono := h.mono
  inside t' ht' htarget := by
    rcases List.mem_cons.mp ht' with rfl | ht'
    · rw [hless] at htarget
      cases htarget
    · exact h.inside t' ht' htarget
  outside i hi := (h.outside i hi).imp_right fun ⟨t', ht', htouches⟩ =>
    ⟨t', List.mem_cons_of_mem _ ht', htouches⟩

/-- A transition enters what it enters alone, and those after it leave that alone. -/
theorem entersAll_cons {history : HistoryValue} {t : Transition L} {ts : List (Transition L)}
    {entry entered : Configuration} {targets : List Nat} {vs : List (Nat × Bool)}
    (h : d.EntersAll history ts (d.addEntered history entry t) entered)
    (hless : t.isTargetless = false) (hconf : d.Confined history t)
    (hl : d.Landing history t targets vs) (hfresh : d.Fresh history entry t)
    (hapart : ∀ t' ∈ ts, t'.isTargetless = false →
      d.Apart (d.domain history t) (d.domain history t')) :
    d.EntersAll history (t :: ts) entry entered where
  mono i hi := h.mono i (hl.subset_addEntered wf hfresh hi)
  inside t' ht' htarget i hi := by
    rcases List.mem_cons.mp ht' with rfl | ht'
    · rw [hl.effectiveTargets_eq, ← hl.mem_addEntered wf hfresh hi]
      refine ⟨fun hin => ?_, h.mono i⟩
      rcases h.outside i hin with hin | ⟨t'', ht'', htouches⟩
      · exact hin
      · exact absurd htouches (wf.not_touches_of_apart (hapart t'' ht'' htouches.1) hi)
    · exact h.inside t' ht' htarget i hi
  outside i hi := by
    rcases h.outside i hi with hi | ⟨t', ht', htouches⟩
    · refine (hl.addEntered_subset wf hfresh hi).imp_right fun hi => ?_
      exact ⟨t, List.mem_cons_self, wf.touches_of_confined hless hconf hl hi⟩
    · exact .inr ⟨t', List.mem_cons_of_mem _ ht', htouches⟩

/-- Entering transitions one after the other, from states outside their domains. -/
theorem entersAll {history : HistoryValue} {ts : List (Transition L)} (entry : Configuration)
    (hland : ∀ t ∈ ts, t.isTargetless = false →
      d.Confined history t ∧ ∃ targets vs, d.Landing history t targets vs)
    (hind : d.Independent history ts)
    (hfresh : ∀ t ∈ ts, t.isTargetless = false → d.Fresh history entry t) :
    d.EntersAll history ts entry (ts.foldl (d.addEntered history) entry) := by
  induction ts generalizing entry with
  | nil => exact ⟨fun _ hi => hi, by simp, fun _ hi => .inl hi⟩
  | cons t rest ih =>
      obtain ⟨hfirst, hrest⟩ := List.pairwise_cons.mp hind
      have hland' := fun t' (ht' : t' ∈ rest) => hland t' (List.mem_cons_of_mem _ ht')
      have hfresh' := fun t' (ht' : t' ∈ rest) => hfresh t' (List.mem_cons_of_mem _ ht')
      rw [List.foldl_cons]
      cases hless : t.isTargetless with
      | true =>
          rw [addEntered_of_targetless hless]
          exact entersAll_skip (ih entry hland' hrest hfresh') hless
      | false =>
          obtain ⟨hconf, targets, vs, hl⟩ := hland t List.mem_cons_self hless
          have hf := hfresh t List.mem_cons_self hless
          -- the rest finds its domains as empty as before
          have hstill : ∀ t' ∈ rest, t'.isTargetless = false →
              d.Fresh history (d.addEntered history entry t) t' := by
            intro t' ht' htarget s hs
            rcases hl.addEntered_subset wf hf hs with hs | hs
            · exact hfresh' t' ht' htarget s hs
            · exact wf.fresh_of_apart hconf (hfirst t' ht' hless htarget) s hs
          exact wf.entersAll_cons (ih _ hland' hrest hstill) hless hconf hl hf fun t' ht' =>
            hfirst t' ht' hless

/-! ## Leaving -/

omit wf in
theorem mem_exitSet (hconfig : d.Possible config) {t : Transition L}
    (ht : t.isTargetless = false) {i : Nat} :
    i ∈ d.exitSet config before t ↔ i ∈ config ∧ d.Under (d.domain before t) i := by
  rw [mem_exitSet_iff, and_iff_right ht]
  refine and_congr_right fun hi => ?_
  cases d.domain before t with
  | none => simpa [Under] using hconfig.lt i hi
  | some a => simp [Under]

omit wf in
theorem of_mem_exitSet (hconfig : d.Possible config) {t : Transition L} {i : Nat}
    (h : i ∈ d.exitSet config before t) :
    t.isTargetless = false ∧ i ∈ config ∧ d.Under (d.domain before t) i :=
  have hless := (mem_exitSet_iff.mp h).2.1
  ⟨hless, (mem_exitSet hconfig hless).mp h⟩

/-- Where parents of active states are active, what contains an active state is. -/
theorem mem_of_within_closed
    (hclosed : ∀ i ∈ config, ∀ p, (d.node i).parent = some p → p ∈ config) {j i : Nat}
    (h : d.Within j i) (hj : j ∈ config) : i ∈ config := by
  induction j using Nat.strongRecOn with
  | _ j ih =>
      rcases h with rfl | h
      · exact hj
      · obtain ⟨p, hp, hwithin⟩ := wf.below_iff_parent.mp h
        exact ih p (wf.parent_lt hp).1 hwithin (hclosed j hj p hp)

theorem mem_of_within (hconfig : d.Possible config) {j i : Nat} (h : d.Within j i)
    (hj : j ∈ config) : i ∈ config := wf.mem_of_within_closed hconfig.parent h hj

/-! ## Leaving and entering -/

section

variable {ts : List (Transition L)}
  (hmoves : ∀ t ∈ ts, t.isTargetless = false → d.Move config before after t)
include hmoves

/-- The domain of a move is active. -/
theorem domain_mem (hconfig : d.Possible config) {t : Transition L} (ht : t ∈ ts)
    (hless : t.isTargetless = false) {a : Nat} (ha : d.domain after t = some a) : a ∈ config :=
  wf.mem_of_within hconfig (wf.domain_spec ha).1 (hmoves t ht hless).source_mem

omit wf in
/-- What is left is active and lies under the domain of some refill. -/
theorem exited_iff (hconfig : d.Possible config) {i : Nat} :
    (∃ t ∈ ts, i ∈ d.exitSet config before t) ↔
      i ∈ config ∧ ∃ l ∈ d.refills after ts, d.Under l.1 i := by
  constructor
  · rintro ⟨t, ht, hexited⟩
    obtain ⟨hless, hi, hunder⟩ := of_mem_exitSet hconfig hexited
    rw [(hmoves t ht hless).domain_eq] at hunder
    exact ⟨hi, _, mem_refills.mpr ⟨t, ht, hless, rfl⟩, hunder⟩
  · rintro ⟨hi, l, hl, hunder⟩
    obtain ⟨t, ht, hless, rfl⟩ := mem_refills.mp hl
    refine ⟨t, ht, (mem_exitSet hconfig hless).mpr ⟨hi, ?_⟩⟩
    rwa [(hmoves t ht hless).domain_eq]

theorem entersAll_entrySet (hind : d.Independent after ts) :
    d.EntersAll after ts .empty (d.entrySet after ts) := by
  refine wf.entersAll .empty (fun t ht hless => ?_) hind
    fun _ _ _ s hs => absurd hs (NodeSet.not_mem_empty s)
  obtain ⟨targets, vs, hl, -⟩ := (hmoves t ht hless).landing
  exact ⟨(hmoves t ht hless).confined, targets, vs, hl⟩

theorem mem_entrySet_of_filled (hind : d.Independent after ts) {l : Option Nat × List Nat}
    (hl : l ∈ d.refills after ts) {i : Nat} (hfilled : d.Filled .empty l.2 l.1 i) :
    i ∈ d.entrySet after ts := by
  obtain ⟨t, ht, hless, rfl⟩ := mem_refills.mp hl
  exact ((wf.entersAll_entrySet hmoves hind).inside t ht hless i (wf.filled_under hfilled)).mpr
    hfilled

/-- What is entered is filled under some domain, or it has been active around one. -/
theorem of_mem_entrySet (hconfig : d.Possible config) (hind : d.Independent after ts) {i : Nat}
    (hi : i ∈ d.entrySet after ts) : (i ∈ config ∧ ∀ l ∈ d.refills after ts, ¬ d.Under l.1 i) ∨
      ∃ l ∈ d.refills after ts, d.Filled .empty l.2 l.1 i := by
  have hall := wf.entersAll_entrySet hmoves hind
  by_cases hunder : ∃ t ∈ ts, t.isTargetless = false ∧ d.Under (d.domain after t) i
  · obtain ⟨t, ht, hless, hunder⟩ := hunder
    exact .inr ⟨_, mem_refills.mpr ⟨t, ht, hless, rfl⟩, (hall.inside t ht hless i hunder).mp hi⟩
  · rcases hall.outside i hi with h | ⟨t, ht, hless, h | ⟨a, ha, hwithin⟩⟩
    · exact absurd h (NodeSet.not_mem_empty i)
    · exact absurd ⟨t, ht, hless, h⟩ hunder
    · have hactive := wf.domain_mem hmoves hconfig ht hless ha
      refine .inl ⟨wf.mem_of_within hconfig hwithin hactive, fun l hl h => ?_⟩
      obtain ⟨t', ht', hless', rfl⟩ := mem_refills.mp hl
      exact hunder ⟨t', ht', hless', h⟩

end

omit wf in
theorem apart_refills {ts : List (Transition L)} (hind : d.Independent after ts) :
    ∀ l ∈ d.refills after ts, ∀ l' ∈ d.refills after ts, l = l' ∨ d.Apart l.1 l'.1 := by
  have hpair : (d.refills after ts).Pairwise fun l l' => d.Apart l.1 l'.1 := by
    refine List.pairwise_map.mpr (List.Pairwise.imp_of_mem ?_ (hind.filter _))
    intro t t' ht ht' h
    exact h (by simpa using (List.mem_filter.mp ht).2) (by simpa using (List.mem_filter.mp ht').2)
  have hsym : Std.Symm fun l l' : Option Nat × List Nat => d.Apart l.1 l'.1 :=
    ⟨fun _ _ h => h.symm⟩
  intro l hl l' hl'
  by_cases heq : l = l'
  · exact .inl heq
  · exact .inr (hpair.forall hl hl' heq)

/-- Independent transitions fill the subtrees of their domains anew. -/
theorem refilled_of_moves (hconfig : d.Possible config) {ts : List (Transition L)}
    (hmoves : ∀ t ∈ ts, t.isTargetless = false → d.Move config before after t)
    (hind : d.Independent after ts) {next : Configuration}
    (hnext : ∀ i, i ∈ next ↔ (i ∈ config ∧ ∀ t ∈ ts, i ∉ d.exitSet config before t) ∨
      i ∈ d.entrySet after ts) : d.Refilled .empty config (d.refills after ts) next where
  agree l hl := by
    obtain ⟨t, ht, hless, rfl⟩ := mem_refills.mp hl
    obtain ⟨targets, vs, hland, hagree⟩ := (hmoves t ht hless).landing
    rw [hland.effectiveTargets_eq]
    exact hagree
  active l hl a ha := by
    obtain ⟨t, ht, hless, rfl⟩ := mem_refills.mp hl
    exact wf.domain_mem hmoves hconfig ht hless ha
  apart := apart_refills hind
  mem i := by
    rw [hnext]
    constructor
    · rintro (⟨hi, hno⟩ | hi)
      · refine .inl ⟨hi, fun l hl hunder => ?_⟩
        obtain ⟨t, ht, hexited⟩ := (exited_iff hmoves hconfig).mpr ⟨hi, l, hl, hunder⟩
        exact hno t ht hexited
      · exact wf.of_mem_entrySet hmoves hconfig hind hi
    · rintro (⟨hi, hno⟩ | ⟨l, hl, hfilled⟩)
      · refine .inl ⟨hi, fun t ht hexited => ?_⟩
        obtain ⟨-, l, hl, hunder⟩ := (exited_iff hmoves hconfig).mp ⟨t, ht, hexited⟩
        exact hno l hl hunder
      · exact .inr (wf.mem_entrySet_of_filled hmoves hind hl hfilled)

/-! ## Domains that lie apart -/

/-- Domains with active states under both, but under none of them the same, lie apart. -/
theorem apart_of_disjoint (hconfig : d.Possible config) {top top' : Option Nat}
    (hsome : ∃ i ∈ config, d.Under top i) (hsome' : ∃ i ∈ config, d.Under top' i)
    (hdisj : ∀ i ∈ config, ¬ (d.Under top i ∧ d.Under top' i)) : d.Apart top top' := by
  obtain ⟨i, hi, hu⟩ := hsome
  obtain ⟨i', hi', hu'⟩ := hsome'
  cases top with
  | none => exact absurd ⟨hconfig.lt i' hi', hu'⟩ (hdisj i' hi')
  | some a =>
      cases top' with
      | none => exact absurd ⟨hu, hconfig.lt i hi⟩ (hdisj i hi)
      | some b =>
          refine ⟨a, b, rfl, rfl, fun h => ?_, fun h => ?_⟩
          · exact hdisj i hi ⟨hu, wf.below_of_below_within hu h⟩
          · exact hdisj i' hi' ⟨wf.below_of_below_within hu' h, hu'⟩

/-- Where something other than history lies below an active state, something is active. -/
theorem exists_active_below (hconfig : d.Possible config) {x a : Nat} (ha : a ∈ config)
    (hx : d.Below x a) (hhist : (d.node x).isHistory = false) : ∃ i ∈ config, d.Below i a := by
  rcases wf.kind_of_below hx with hk | hk
  · obtain ⟨c, hc, hact, _⟩ := hconfig.compound a ha hk
    exact ⟨c, hact, wf.child_below hc⟩
  · obtain ⟨c, hc, hwithin⟩ := wf.exists_child hx
    have hchist : (d.node c).isHistory = false := by
      rcases hwithin with rfl | hbelow
      · exact hhist
      · exact wf.not_history_of_below hbelow
    exact ⟨c, hconfig.parallel a ha hk c hc hchist, wf.child_below hc⟩

/-! ## Plain transitions -/

omit wf in
theorem domain_congr {history history' : HistoryValue} {t : Transition L}
    (h : d.effectiveTargets history t = d.effectiveTargets history' t) :
    d.domain history t = d.domain history' t := by
  rw [domain, h]
  rfl

omit wf in
theorem effectiveTargets_state (history : HistoryValue) {t : Transition L} {x : Nat}
    (htargets : t.targets = [x]) (hhist : (d.node x).isHistory = false) :
    d.effectiveTargets history t = [x] := by
  rw [effectiveTargets, htargets, List.foldl_cons, List.foldl_nil, addTarget_leads (.state hhist)]
  rfl

omit wf in
/-- A single target that is no history state lies properly below the domain, unless the transition
targets its source without reentry. -/
theorem below_domain {history : HistoryValue} {t : Transition L} {x a : Nat}
    (htargets : t.targets = [x]) (hhist : (d.node x).isHistory = false)
    (hself : t.reenter = true ∨ x ≠ t.source) (ha : d.domain history t = some a) :
    d.Below x a := by
  have heff := effectiveTargets_state (d := d) history htargets hhist
  have hne : d.effectiveTargets history t ≠ [] := by simp [heff]
  rcases inside_or_outside d history t with ⟨hreenter, hin⟩ | hout
  · rw [domain_of_inside hne hreenter hin] at ha
    cases ha
    rw [heff] at hin
    rcases hin x List.mem_cons_self with heq | hbelow
    · rcases hself with h | h
      · rw [hreenter] at h
        cases h
      · exact absurd heq h
    · exact hbelow
  · rw [domain_of_outside hne hout] at ha
    have hall := List.find?_some ha
    simpa [heff] using hall

omit wf in
theorem landing_state (history : HistoryValue) {t : Transition L} {x : Nat}
    (htargets : t.targets = [x]) (hlt : x < d.nodes.size) (hhist : (d.node x).isHistory = false) :
    d.Landing history t [x] [] where
  leads := ⟨x, htargets, .state hhist⟩
  lt := by simpa using hlt
  history := by simpa using hhist
  ne_nil := by simp
  scattered := List.pairwise_singleton _ _
  visits := by simp

theorem agreeing_singleton {x : Nat} (hlt : x < d.nodes.size)
    (hhist : (d.node x).isHistory = false) : d.Agreeing [x] where
  lt := by simpa using hlt
  history := by simpa using hhist
  unique p _ c hc c' hc' h h' := by
    rw [targeted_singleton] at h h'
    exact wf.child_unique hc hc' h h'

/-- What a single target under the domain brings with it lies under the domain. -/
theorem confined_state {history : HistoryValue} {t : Transition L} {x : Nat}
    (htargets : t.targets = [x]) (hlt : x < d.nodes.size) (hhist : (d.node x).isHistory = false)
    (hself : t.reenter = true ∨ x ≠ t.source) : d.Confined history t := by
  intro i hi a ha
  have hxa := below_domain htargets hhist hself ha
  have hland := landing_state history htargets hlt hhist
  left
  rcases (hland.mem_addEntered_empty wf).mp hi with h | ⟨s, hs, h⟩ | h |
    ⟨v, hv, c, hregion, _, h⟩
  · exact absurd h (NodeSet.not_mem_empty i)
  · rw [List.mem_singleton.mp hs] at h
    exact wf.below_of_within (wf.byDefault_within h) hxa
  · simp only [List.nil_append, List.flatMap_singleton, visits, ha, List.mem_append,
      List.mem_map, Prod.mk.injEq, and_true, exists_eq_right, Bool.false_eq_true, and_false,
      exists_false, or_false, wf.mem_properAncestors] at h
    exact h.2 a rfl hxa
  · have hva : d.Within v.1 a := by
      simp only [List.nil_append, List.flatMap_singleton, visits, ha, List.mem_append,
        List.mem_map, Option.toList_some, List.mem_singleton] at hv
      rcases hv with ⟨z, hz, rfl⟩ | ⟨b, rfl, rfl⟩
      · exact .inr (((wf.mem_properAncestors _).mp hz).2 a rfl hxa)
      · exact .inl rfl
    exact wf.below_of_within (wf.byDefault_within h)
      (wf.below_of_below_within (wf.child_below hregion.2.1) hva)

/-- A transition to one state that is no history and not the source, unless that is reentered. -/
theorem move_state {t : Transition L} {x : Nat} (hsource : t.source ∈ config)
    (htargets : t.targets = [x]) (hlt : x < d.nodes.size) (hhist : (d.node x).isHistory = false)
    (hself : t.reenter = true ∨ x ≠ t.source) : d.Move config before after t where
  source_mem := hsource
  landing := ⟨[x], [], landing_state _ htargets hlt hhist, wf.agreeing_singleton hlt hhist⟩
  confined := wf.confined_state htargets hlt hhist hself
  domain_eq := domain_congr
    ((effectiveTargets_state _ htargets hhist).trans (effectiveTargets_state _ htargets hhist).symm)

end WellFormed

end Statechart.Definition
