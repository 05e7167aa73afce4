import Statechart.Proofs.Moves
import Statechart.Proofs.SortedMap

/-!
# What history states stand for

A history state stands for what was active below its parent when that was last left, and before that
for its default. `standsFor_of_leads` says what such states have in common: they can be active
together, and they lie below the history state's parent. `exists_leads` says that there are some. What
a transition leads to may change while it is taken, since its history states record on the way;
`leads_recordHistory` says when.
-/

namespace Statechart.Definition

variable {L : Type} (d : Definition L)

/-- Every record is of what was active once, in some configuration, when the parent of the history
state was. -/
def Recordable (history : HistoryValue) : Prop :=
  ∀ h xs, SortedMap.find? h history = some xs → ∃ config p kind, d.Possible config ∧ p ∈ config ∧
    (d.node h).parent = some p ∧ (d.node h).history = some kind ∧
      xs = d.remembered config p kind

/-- What a history state remembers is recorded whenever its parent is left. -/
def IsHistoryOf (h state : Nat) : Prop :=
  h ∈ (d.node state).children ∧ (d.node h).history ≠ none

/-- Every history state has at most one declared default, which lies below the state's parent, and
its defaults lead to something. -/
structure SettledHistory : Prop where
  single : ∀ h, (d.node h).isHistory = true → (d.node h).historyDefault.length ≤ 1
  below : ∀ h p, (d.node h).isHistory = true → (d.node h).parent = some p →
    ∀ x ∈ (d.node h).historyDefault, d.Below x p
  settles : ∀ h, (d.node h).isHistory = true → d.addTarget [] (d.nodes.size + 1) [] h ≠ []

/-- Every parallel state has a region. -/
def HasRegions : Prop :=
  ∀ p, (d.node p).kind = .parallel → ∃ c ∈ (d.node p).children, (d.node c).isHistory = false

/-- What a target stands for, with the visits that are made to enter it. -/
structure StandsFor (x : Nat) (targets : List Nat) (vs : List (Nat × Bool)) : Prop where
  agreeing : d.Agreeing targets
  ne_nil : targets ≠ []
  scattered : d.Scattered targets
  visits : ∀ v ∈ vs, d.Targeted targets v.1
  below : ∀ p, d.Below x p → ∀ s ∈ targets, d.Below s p

variable {d} {config : Configuration} {history : HistoryValue}

/-! ## Records -/

theorem recordable_nil : d.Recordable [] := by
  intro h xs hfind
  cases hfind

theorem find?_recordAt {state h : Nat} :
    SortedMap.find? h (d.recordAt config history state) =
      if h ∈ (d.node state).children then
        match (d.node h).history with
        | some kind => some (d.remembered config state kind)
        | none => SortedMap.find? h history
      else SortedMap.find? h history := by
  -- induction over the children, of which each records for itself only
  have hfold : ∀ (cs : List Nat) (history : HistoryValue),
      SortedMap.find? h (cs.foldl (fun history child =>
        match (d.node child).history with
        | some kind => SortedMap.insert child (d.remembered config state kind) history
        | none => history) history) =
      if h ∈ cs then
        match (d.node h).history with
        | some kind => some (d.remembered config state kind)
        | none => SortedMap.find? h history
      else SortedMap.find? h history := by
    intro cs
    induction cs with
    | nil => simp
    | cons c rest ih =>
        intro history
        rw [List.foldl_cons, ih]
        by_cases hc : h = c
        · subst hc
          cases hk : (d.node h).history with
          | none => simp
          | some kind => simp [SortedMap.find?_insert]
        · have hsame : ∀ kind, SortedMap.find? h
              (SortedMap.insert c (d.remembered config state kind) history) =
                SortedMap.find? h history := by
            intro kind
            rw [SortedMap.find?_insert, if_neg fun heq => hc heq.symm]
          cases (d.node c).history <;> simp [hc, hsame]
  exact hfold _ _

theorem recordAt_eq_self {state : Nat} (hno : ∀ h, ¬ d.IsHistoryOf h state) :
    d.recordAt config history state = history := by
  unfold recordAt
  have hnone : ∀ child ∈ (d.node state).children, (d.node child).history = none := by
    intro child hchild
    by_contra hhist
    exact hno child ⟨hchild, hhist⟩
  generalize (d.node state).children = children at hnone
  induction children with
  | nil => rfl
  | cons child rest ih =>
      rw [List.foldl_cons, hnone child List.mem_cons_self]
      exact ih fun c hc => hnone c (List.mem_cons_of_mem _ hc)

/-- To leave states without history children records nothing. -/
theorem recordHistory_eq_self {exiting : List Nat}
    (hno : ∀ state ∈ exiting, ∀ h, ¬ d.IsHistoryOf h state) :
    d.recordHistory config exiting history = history := by
  unfold recordHistory
  induction exiting with
  | nil => rfl
  | cons state rest ih =>
      rw [List.foldl_cons, recordAt_eq_self (hno state List.mem_cons_self)]
      exact ih fun s hs => hno s (List.mem_cons_of_mem _ hs)

/-- A history state whose parent is not left keeps its record. -/
theorem find?_recordHistory_of_stays {exiting : List Nat} {h : Nat}
    (hno : ∀ state ∈ exiting, ¬ d.IsHistoryOf h state) :
    SortedMap.find? h (d.recordHistory config exiting history) = SortedMap.find? h history := by
  unfold recordHistory
  induction exiting generalizing history with
  | nil => rfl
  | cons state rest ih =>
      rw [List.foldl_cons, ih fun s hs => hno s (List.mem_cons_of_mem _ hs), find?_recordAt]
      split
      · rename_i hchild
        have hnone : (d.node h).history = none := by
          by_contra hhist
          exact hno state List.mem_cons_self ⟨hchild, hhist⟩
        rw [hnone]
      · rfl

namespace WellFormed

variable (wf : d.WellFormed)
include wf

/-- Leaving states records anew what the history states among their children stand for. -/
theorem find?_recordHistory {exiting : List Nat} {h p : Nat} {kind : HistoryKind}
    (hp : (d.node h).parent = some p) (hk : (d.node h).history = some kind) :
    SortedMap.find? h (d.recordHistory config exiting history) =
      if p ∈ exiting then some (d.remembered config p kind) else SortedMap.find? h history := by
  unfold recordHistory
  induction exiting generalizing history with
  | nil => simp
  | cons state rest ih =>
      rw [List.foldl_cons, ih, find?_recordAt]
      simp only [wf.mem_children, hp, hk, Option.some.injEq]
      by_cases hstate : p = state
      · subst hstate
        simp
      · simp [hstate]

omit wf in
/-- What is no history state records nothing. -/
theorem find?_recordHistory_of_none {exiting : List Nat} {h : Nat}
    (hk : (d.node h).history = none) :
    SortedMap.find? h (d.recordHistory config exiting history) = SortedMap.find? h history :=
  find?_recordHistory_of_stays fun _ _ hkept => hkept.2 hk

theorem recordable_recordHistory (hconfig : d.Possible config) (hhist : d.Recordable history)
    {exiting : List Nat} (hexiting : ∀ i ∈ exiting, i ∈ config) :
    d.Recordable (d.recordHistory config exiting history) := by
  intro h xs hfind
  cases hk : (d.node h).history with
  | none =>
      rw [find?_recordHistory_of_none hk] at hfind
      simpa only [hk] using hhist h xs hfind
  | some kind =>
      cases hp : (d.node h).parent with
      | none =>
          -- the root is no history state
          have hroot : h = 0 ∨ d.nodes.size ≤ h := by
            by_contra hno
            obtain ⟨q, hq, -⟩ := wf.parent_pos h (by omega) (by omega)
            rw [hp] at hq
            cases hq
          have hhistory := wf.history_isSome h
          rw [hk] at hhistory
          rcases hroot with rfl | hsize
          · exact absurd hhistory (by simpa [StateNode.isHistory] using wf.root_kind.1)
          · rw [node_of_size_le hsize] at hhistory
            cases hhistory
      | some p =>
          rw [wf.find?_recordHistory hp hk] at hfind
          split at hfind
          · rename_i hmem
            cases hfind
            exact ⟨config, p, kind, hconfig, hexiting p hmem, rfl, rfl, rfl⟩
          · simpa only [hk, hp] using hhist h xs hfind

/-! ## What was active -/

/-- States that are active together can be. -/
theorem agreeing_of_possible (hconfig : d.Possible config) {targets : List Nat}
    (hmem : ∀ t ∈ targets, t ∈ config) : d.Agreeing targets where
  lt t ht := hconfig.lt t (hmem t ht)
  history t ht := hconfig.history t (hmem t ht)
  unique p hk c hc c' hc' := by
    rintro ⟨t, ht, hwithin⟩ ⟨t', ht', hwithin'⟩
    have hact := wf.mem_of_within hconfig hwithin (hmem t ht)
    have hact' := wf.mem_of_within hconfig hwithin' (hmem t' ht')
    have hp := wf.mem_of_within hconfig (.inr (wf.child_below hc)) hact
    obtain ⟨c'', -, -, hunique⟩ := hconfig.compound p hp hk
    exact (hunique c hc hact).trans (hunique c' hc' hact').symm

omit wf in
/-- In an active state with children a child is active. -/
theorem exists_active_child (hreg : d.HasRegions) (hconfig : d.Possible config) {p : Nat} (hp : p ∈ config)
    (hk : (d.node p).isAtomic = false) : ∃ c ∈ (d.node p).children, c ∈ config := by
  have hhist := hconfig.history p hp
  cases hkind : (d.node p).kind with
  | atomic => simp [StateNode.isAtomic, hkind] at hk
  | final => simp [StateNode.isAtomic, hkind] at hk
  | history => simp [StateNode.isHistory, hkind] at hhist
  | compound =>
      obtain ⟨c, hc, hact, -⟩ := hconfig.compound p hp hkind
      exact ⟨c, hc, hact⟩
  | parallel =>
      obtain ⟨c, hc, hno⟩ := hreg p hkind
      exact ⟨c, hc, hconfig.parallel p hp hkind c hc hno⟩

/-- Below an active state with children a leaf is active. -/
theorem exists_active_leaf (hreg : d.HasRegions) (hconfig : d.Possible config) {p : Nat} (hp : p ∈ config)
    (hk : (d.node p).isAtomic = false) :
    ∃ l ∈ config, (d.node l).isAtomic = true ∧ d.Below l p := by
  -- children stand after their parents, so going down comes to an end
  induction hn : d.nodes.size - p using Nat.strongRecOn generalizing p with
  | _ n ih =>
      obtain ⟨c, hc, hact⟩ := exists_active_child hreg hconfig hp hk
      cases hatomic : (d.node c).isAtomic with
      | true => exact ⟨c, hact, hatomic, wf.child_below hc⟩
      | false =>
          have hlt := wf.lt_of_below (wf.child_below hc)
          have hsize := wf.child_lt hc
          obtain ⟨l, hl, hleaf, hbelow⟩ := ih _ (by omega) hact hatomic rfl
          exact ⟨l, hl, hleaf, wf.below_trans hbelow (wf.child_below hc)⟩

theorem not_below_of_atomic {p : Nat} (hk : (d.node p).isAtomic = true) (i : Nat) :
    ¬ d.Below i p := by
  intro h
  rcases wf.kind_of_below h with hkind | hkind <;> simp [StateNode.isAtomic, hkind] at hk

/-! ## What a target stands for -/

/-- The visits on the way from states up to a state around them begin within these states. -/
theorem targeted_of_mem_visits {targets : List Nat} {p x : Nat} {v : Nat × Bool}
    (hbelow : ∀ a, d.Below x a → d.Targeted targets a) (hx : d.Below x p)
    (hv : v ∈ d.visits (some p) x) : d.Targeted targets v.1 := by
  rcases List.mem_append.mp hv with hv | hv
  · obtain ⟨a, ha, rfl⟩ := List.mem_map.mp hv
    exact hbelow a ((wf.mem_properAncestors _).mp ha).1
  · simp only [Option.toList_some, List.map_singleton, List.mem_singleton] at hv
    subst hv
    exact hbelow p hx

theorem scattered_of_siblings {p : Nat} {targets : List Nat} (hnodup : targets.Nodup)
    (hchild : ∀ t ∈ targets, t ∈ (d.node p).children) : d.Scattered targets := by
  refine hnodup.imp_of_mem fun {t t'} ht ht' hne => ?_
  have hnot : ∀ {t t'}, t ∈ targets → t' ∈ targets → t ≠ t' → ¬ d.Within t t' :=
    fun ht ht' hne h => hne (wf.child_unique (hchild _ ht) (hchild _ ht') (.inl rfl) h)
  exact ⟨hnot ht ht' hne, hnot ht' ht (Ne.symm hne)⟩

/-- The regions of a parallel state can be active together. -/
theorem agreeing_regions {p : Nat} (hk : (d.node p).kind = .parallel) {targets : List Nat}
    (hchild : ∀ t ∈ targets, t ∈ (d.node p).children)
    (hhist : ∀ t ∈ targets, (d.node t).isHistory = false) : d.Agreeing targets where
  lt t ht := wf.child_lt (hchild t ht)
  history := hhist
  unique q hq c hc c' hc' := by
    have hinside : ∀ c ∈ (d.node q).children, d.Targeted targets c → d.Within p c := by
      rintro c hc ⟨t, ht, rfl | hbelow⟩
      · have hparent := wf.mem_children.mp (hchild t ht)
        rw [wf.mem_children.mp hc] at hparent
        cases hparent
        rw [hk] at hq
        cases hq
      · exact (wf.below_iff_of_parent (wf.mem_children.mp (hchild t ht))).mp hbelow
    intro h h'
    exact wf.child_unique hc hc' (hinside c hc h) (hinside c' hc' h')

theorem standsFor_state {x : Nat} (hlt : x < d.nodes.size) (hhist : (d.node x).isHistory = false) :
    d.StandsFor x [x] [] where
  agreeing := wf.agreeing_singleton hlt hhist
  ne_nil := by simp
  scattered := List.pairwise_singleton _ _
  visits := by simp
  below p hp s hs := by
    rw [List.mem_singleton.mp hs]
    exact hp

/-- States below the parent of a history state that are entered directly. -/
theorem standsFor_below {h p : Nat} (hp : (d.node h).parent = some p) {targets : List Nat}
    (hagree : d.Agreeing targets) (hne : targets ≠ []) (hscat : d.Scattered targets)
    (hbelow : ∀ t ∈ targets, d.Below t p) :
    d.StandsFor h targets (targets.flatMap (d.visits (d.node h).parent)) where
  agreeing := hagree
  ne_nil := hne
  scattered := hscat
  visits v hv := by
    obtain ⟨t, ht, hv⟩ := List.mem_flatMap.mp hv
    rw [hp] at hv
    exact wf.targeted_of_mem_visits (fun a ha => ⟨t, ht, .inr ha⟩) (hbelow t ht) hv
  below a ha t ht :=
    wf.below_of_below_within (hbelow t ht) ((wf.below_iff_of_parent hp).mp ha)

/-- Beside the regions of a parallel state, a history state may stand for all of them. -/
theorem standsFor_regions (hreg : d.HasRegions) {h p : Nat} (hp : (d.node h).parent = some p)
    (hk : (d.node p).kind = .parallel) :
    d.StandsFor h ((d.node p).children.filter fun c => !(d.node c).isHistory)
      (((d.node p).children.filter fun c => !(d.node c).isHistory).flatMap
        (d.visits (d.node h).parent)) := by
  have hmem : ∀ t, t ∈ (d.node p).children.filter (fun c => !(d.node c).isHistory) ↔
      t ∈ (d.node p).children ∧ (d.node t).isHistory = false := by simp
  have hsize : p < d.nodes.size := Nat.lt_trans (wf.parent_lt hp).1 (wf.parent_lt hp).2
  have hnodup := ((wf.children_sorted p hsize).imp fun h => Nat.ne_of_lt h).filter
    fun c => !(d.node c).isHistory
  obtain ⟨c, hc, hno⟩ := hreg p hk
  exact wf.standsFor_below hp
    (wf.agreeing_regions hk (fun t ht => ((hmem t).mp ht).1) fun t ht => ((hmem t).mp ht).2)
    (List.ne_nil_of_mem ((hmem c).mpr ⟨hc, hno⟩))
    (wf.scattered_of_siblings hnodup fun t ht => ((hmem t).mp ht).1)
    fun t ht => wf.child_below ((hmem t).mp ht).1

/-- What was remembered can be entered again. -/
theorem standsFor_remembered (hreg : d.HasRegions) (hconfig : d.Possible config) {h p : Nat}
    (hp : (d.node h).parent = some p) (hact : p ∈ config) (kind : HistoryKind) :
    d.StandsFor h (d.remembered config p kind)
      ((d.remembered config p kind).flatMap (d.visits (d.node h).parent)) := by
  have hatomic : (d.node p).isAtomic = false := by
    by_contra hno
    have hh := wf.child_below (wf.mem_children.mpr hp)
    exact wf.not_below_of_atomic (by simpa using hno) h hh
  cases kind with
  | shallow =>
      have hmem : ∀ t, t ∈ d.remembered config p .shallow ↔
          t ∈ (d.node p).children ∧ t ∈ config := by simp [remembered]
      obtain ⟨c, hc, hcact⟩ := exists_active_child hreg hconfig hact hatomic
      have hsorted := wf.children_sorted p (hconfig.lt p hact)
      refine wf.standsFor_below hp
        (wf.agreeing_of_possible hconfig fun t ht => ((hmem t).mp ht).2)
        (List.ne_nil_of_mem ((hmem c).mpr ⟨hc, hcact⟩))
        (wf.scattered_of_siblings ((hsorted.imp fun h => Nat.ne_of_lt h).filter _)
          fun t ht => ((hmem t).mp ht).1)
        fun t ht => wf.child_below ((hmem t).mp ht).1
  | deep =>
      have hmem : ∀ t, t ∈ d.remembered config p .deep ↔
          t ∈ config ∧ (d.node t).isAtomic = true ∧ d.Below t p := by simp [remembered]
      obtain ⟨l, hl, hleaf, hbelow⟩ := wf.exists_active_leaf hreg hconfig hact hatomic
      refine wf.standsFor_below hp
        (wf.agreeing_of_possible hconfig fun t ht => ((hmem t).mp ht).1)
        (List.ne_nil_of_mem ((hmem l).mpr ⟨hl, hleaf, hbelow⟩)) ?_
        fun t ht => ((hmem t).mp ht).2.2
      -- no leaf lies in another one
      have hnodup : (d.remembered config p .deep).Nodup := (NodeSet.nodup_toList config).filter _
      refine hnodup.imp_of_mem fun {t t'} ht ht' hne => ?_
      have hleaf := ((hmem t).mp ht).2.1
      have hleaf' := ((hmem t').mp ht').2.1
      exact ⟨fun h => h.elim hne (wf.not_below_of_atomic hleaf' t),
        fun h => h.elim (Ne.symm hne) (wf.not_below_of_atomic hleaf t')⟩

/-- The defaults of a history state are the regions of its parent, or a single state below it. -/
theorem historyDefaults_cases (hset : d.SettledHistory) {h p : Nat}
    (hhist : (d.node h).isHistory = true) (hp : (d.node h).parent = some p) :
    ((d.node p).kind = .parallel ∧ d.historyDefaults h =
        (d.node p).children.filter fun c => !(d.node c).isHistory) ∨
      ∃ x, d.historyDefaults h = [x] ∧ d.Below x p ∧ x < d.nodes.size := by
  have hchild := wf.mem_children.mpr hp
  have hsize : p < d.nodes.size := Nat.lt_trans (wf.parent_lt hp).1 (wf.parent_lt hp).2
  have hsingle := hset.single h hhist
  have hbelow := hset.below h p hhist hp
  have hlt := wf.historyDefault_lt h
  cases hdefault : (d.node h).historyDefault with
  | nil =>
      simp only [historyDefaults, hdefault, hp]
      rcases wf.kind_of_child hchild with hk | hk
      · obtain ⟨c, hc, hinitial, -⟩ := wf.initial p hsize hk
        exact .inr ⟨c, by simp [hk, hinitial], wf.child_below hc, wf.child_lt hc⟩
      · exact .inl ⟨hk, by simp [hk]⟩
  | cons x rest =>
      rw [hdefault] at hsingle hbelow hlt
      simp only [historyDefaults, hdefault]
      have hrest : rest = [] := List.eq_nil_of_length_eq_zero (by simpa using hsingle)
      exact .inr ⟨x, by rw [hrest], hbelow x List.mem_cons_self, hlt x List.mem_cons_self⟩

theorem history_ne_root {h : Nat} (hhist : (d.node h).isHistory = true) :
    ∃ p, (d.node h).parent = some p := by
  have hlt : h < d.nodes.size := by
    by_contra hno
    rw [node_of_size_le (by omega)] at hhist
    cases hhist
  refine (wf.parent_pos h hlt (Nat.pos_of_ne_zero ?_)).imp fun _ h => h.1
  rintro rfl
  exact wf.root_kind.1 (by simpa [StateNode.isHistory] using hhist)

theorem below_of_mem_historyDefaults (hset : d.SettledHistory) {h p x : Nat}
    (hhist : (d.node h).isHistory = true) (hp : (d.node h).parent = some p)
    (hx : x ∈ d.historyDefaults h) : d.Below x p ∧ x < d.nodes.size := by
  rcases wf.historyDefaults_cases hset hhist hp with ⟨_, heq⟩ | ⟨y, heq, hbelow, hlt⟩
  · rw [heq] at hx
    have hchild := (List.mem_filter.mp hx).1
    exact ⟨wf.child_below hchild, wf.child_lt hchild⟩
  · rw [heq] at hx
    rw [List.mem_singleton.mp hx]
    exact ⟨hbelow, hlt⟩

/-- Where the defaults of history states lead to something, every parallel state has a region. -/
theorem hasRegions (hset : d.SettledHistory) : d.HasRegions := by
  -- a default that is no region of its parent is a history state beside the first one
  have hfollow : ∀ n h p, (d.node h).isHistory = true → (d.node h).parent = some p →
      d.addTarget [] n [] h ≠ [] → ∃ c ∈ (d.node p).children, (d.node c).isHistory = false := by
    intro n
    induction n with
    | zero => exact fun h p _ _ hne => absurd rfl hne
    | succ n ih =>
        intro h p hhist hp hne
        rw [addTarget, if_pos hhist] at hne
        simp only [SortedMap.find?] at hne
        rcases wf.historyDefaults_cases hset hhist hp with ⟨_, heq⟩ | ⟨x, heq, hbelow, -⟩
        · rw [heq] at hne
          cases hregions : (d.node p).children.filter fun c => !(d.node c).isHistory with
          | nil =>
              rw [hregions] at hne
              exact absurd rfl hne
          | cons c rest =>
              have hc := List.mem_filter.mp (hregions ▸ List.mem_cons_self)
              exact ⟨c, hc.1, by simpa using hc.2⟩
        · rw [heq, List.foldl_cons, List.foldl_nil] at hne
          obtain ⟨c, hc, hwithin⟩ := wf.exists_child hbelow
          cases hch : (d.node c).isHistory with
          | false => exact ⟨c, hc, hch⟩
          | true =>
              rcases hwithin with rfl | hxc
              · exact ih x p hch (wf.mem_children.mp hc) hne
              · rw [wf.not_history_of_below hxc] at hch
                cases hch
  intro p hk
  have hsize : p < d.nodes.size := by
    by_contra hno
    rw [node_of_size_le (by omega)] at hk
    cases hk
  obtain ⟨c, rest, hcs⟩ := List.exists_cons_of_ne_nil ((wf.children_ne_nil p hsize).mpr (.inr hk))
  have hc : c ∈ (d.node p).children := hcs ▸ List.mem_cons_self
  cases hch : (d.node c).isHistory with
  | false => exact ⟨c, hc, hch⟩
  | true => exact hfollow _ c p hch (wf.mem_children.mp hc) (hset.settles c hch)

/-- What a target leads to is what it stands for. -/
theorem standsFor_of_leads (hset : d.SettledHistory) (hrec : d.Recordable history)
    {n x : Nat} (hx : x < d.nodes.size) {targets : List Nat} {vs : List (Nat × Bool)}
    (h : d.Leads history n x targets vs) : d.StandsFor x targets vs := by
  have hreg := wf.hasRegions hset
  induction h with
  | state hhist => exact wf.standsFor_state hx hhist
  -- what was recorded was active together, with one state around it
  | @recorded n h xs hhist hfind _ =>
      obtain ⟨config, p, kind, hconfig, hact, hp, -, rfl⟩ := hrec h xs hfind
      exact wf.standsFor_remembered hreg hconfig hp hact kind
  | @regions n h xs hhist hfind hdefaults hstates =>
      obtain ⟨p, hp⟩ := wf.history_ne_root hhist
      rcases wf.historyDefaults_cases hset hhist hp with ⟨hk, heq⟩ | ⟨y, heq, hbelow, hlt⟩
      · rw [← hdefaults, heq]
        exact wf.standsFor_regions hreg hp hk
      · rw [hdefaults] at heq
        subst heq
        exact wf.standsFor_below hp (wf.agreeing_singleton hlt (hstates y (by simp))) (by simp)
          (List.pairwise_singleton _ _) (by simpa using hbelow)
  | @default n h y xs vs hhist hfind hdefaults _ ih =>
      obtain ⟨p, hp⟩ := wf.history_ne_root hhist
      obtain ⟨hbelow, hlt⟩ :=
        wf.below_of_mem_historyDefaults hset hhist hp (x := y) (by simp [hdefaults])
      have hin := ih hlt
      refine ⟨hin.agreeing, hin.ne_nil, hin.scattered, fun v hv => ?_, fun q hq => ?_⟩
      · rcases List.mem_append.mp hv with hv | hv
        · exact hin.visits v hv
        · rw [hp] at hv
          refine wf.targeted_of_mem_visits (fun a ha => ?_) hbelow hv
          obtain ⟨s, hs⟩ := List.exists_mem_of_ne_nil xs hin.ne_nil
          exact ⟨s, hs, .inr (hin.below a ha s hs)⟩
      · exact hin.below q (wf.below_of_below_within hbelow ((wf.below_iff_of_parent hp).mp hq))

omit wf in
theorem foldl_addTarget_zero : ∀ xs : List Nat, xs.foldl (d.addTarget [] 0) [] = []
  | [] => rfl
  | _ :: rest => foldl_addTarget_zero rest

/-- What leads to something before anything is recorded always does. -/
theorem exists_leads (hset : d.SettledHistory) (hrec : d.Recordable history) {n x : Nat}
    (hne : d.addTarget [] n [] x ≠ []) : ∃ targets vs, d.Leads history n x targets vs := by
  induction n generalizing x with
  | zero => exact absurd rfl hne
  | succ n ih =>
      cases hhist : (d.node x).isHistory with
      | false => exact ⟨[x], [], .state hhist⟩
      | true =>
          cases hfind : SortedMap.find? x history with
          | some xs =>
              obtain ⟨config, p, kind, hconfig, hact, hp, hk, hxs⟩ := hrec x xs hfind
              refine ⟨xs, _, .recorded hhist hfind fun t ht => ?_⟩
              have hagree := (wf.standsFor_remembered (wf.hasRegions hset) hconfig hp hact
                kind).agreeing
              rw [← hxs] at hagree
              exact hagree.history t ht
          | none =>
              obtain ⟨p, hp⟩ := wf.history_ne_root hhist
              rw [addTarget, if_pos hhist] at hne
              simp only [SortedMap.find?] at hne
              rcases wf.historyDefaults_cases hset hhist hp with ⟨hk, heq⟩ | ⟨y, heq, -, -⟩
              · -- without a level left the regions would not have been added
                rcases n with _ | n
                · exact absurd (foldl_addTarget_zero _) hne
                · exact ⟨_, _, .regions hhist hfind heq fun t ht => by
                    simpa using (List.mem_filter.mp ht).2⟩
              · rw [heq, List.foldl_cons, List.foldl_nil] at hne
                obtain ⟨targets, vs, hleads⟩ := ih hne
                exact ⟨targets, _, .default hhist hfind heq hleads⟩

omit wf in
theorem leads_state {n x : Nat} (hhist : (d.node x).isHistory = false) {targets : List Nat}
    {vs : List (Nat × Bool)} (h : d.Leads history n x targets vs) : targets = [x] := by
  cases h with
  | state => rfl
  | recorded hh | regions hh | default hh => rw [hhist] at hh; cases hh

omit wf in
/-- A history state that has recorded something leads there and nowhere else. -/
theorem leads_recorded {n h : Nat} (hhist : (d.node h).isHistory = true) {xs : List Nat}
    (hfind : SortedMap.find? h history = some xs) {targets : List Nat} {vs : List (Nat × Bool)}
    (hleads : d.Leads history n h targets vs) : targets = xs := by
  cases hleads with
  | state hno =>
      rw [hhist] at hno
      cases hno
  | recorded _ hfind' => exact Option.some.inj (hfind'.symm.trans hfind)
  | regions _ hfind' | default _ hfind' => cases hfind'.symm.trans hfind

omit wf in
/-- One that has recorded nothing leads to its defaults, or to what its one default leads to. -/
theorem leads_unrecorded {n h : Nat} (hhist : (d.node h).isHistory = true)
    (hfind : SortedMap.find? h history = none) {targets : List Nat} {vs : List (Nat × Bool)}
    (hleads : d.Leads history n h targets vs) :
    (d.historyDefaults h = targets ∧ ∀ t ∈ targets, (d.node t).isHistory = false) ∨
      ∃ y n' vs', d.historyDefaults h = [y] ∧ d.Leads history n' y targets vs' := by
  cases hleads with
  | state hno =>
      rw [hhist] at hno
      cases hno
  | recorded _ hfind' => cases hfind'.symm.trans hfind
  | regions _ _ hdefaults hstates => exact .inl ⟨hdefaults, hstates⟩
  | default _ _ hdefaults hbelow => exact .inr ⟨_, _, _, hdefaults, hbelow⟩

/-- A history state records when its parent is left, and otherwise keeps what it has recorded. -/
theorem left_or_kept (config : Configuration) (history : HistoryValue) (exiting : List Nat)
    {h : Nat} (hhist : (d.node h).isHistory = true) :
    (∃ p ∈ exiting, d.Below h p) ∨ SortedMap.find? h (d.recordHistory config exiting history) =
      SortedMap.find? h history := by
  obtain ⟨p, hp⟩ := wf.history_ne_root hhist
  obtain ⟨kind, hk⟩ : ∃ kind, (d.node h).history = some kind :=
    Option.isSome_iff_exists.mp ((wf.history_isSome h).trans hhist)
  by_cases hmem : p ∈ exiting
  · exact .inl ⟨p, hmem, wf.child_below (wf.mem_children.mpr hp)⟩
  · exact .inr (by rw [wf.find?_recordHistory hp hk, if_neg hmem])

/-- Recording changes what a target leads to only where it did and does lead below a state that is
being left. -/
theorem leads_recordHistory (hset : d.SettledHistory) (hconfig : d.Possible config)
    (hrec : d.Recordable history) {exiting : List Nat} (hexiting : ∀ i ∈ exiting, i ∈ config)
    {n x : Nat} (hx : x < d.nodes.size) {targets : List Nat} {vs : List (Nat × Bool)}
    (h : d.Leads history n x targets vs) {n' : Nat} {targets' : List Nat}
    {vs' : List (Nat × Bool)}
    (h' : d.Leads (d.recordHistory config exiting history) n' x targets' vs') :
    targets = targets' ∨
      ∃ p ∈ exiting, (∀ s ∈ targets, d.Below s p) ∧ ∀ s ∈ targets', d.Below s p := by
  have hrec' := wf.recordable_recordHistory hconfig hrec hexiting
  have hstands := wf.standsFor_of_leads hset hrec hx h
  have hstands' := wf.standsFor_of_leads hset hrec' hx h'
  -- where a state on the way is left, both lead below it
  have hleft : (∃ p ∈ exiting, d.Below x p) → targets = targets' ∨
      ∃ p ∈ exiting, (∀ s ∈ targets, d.Below s p) ∧ ∀ s ∈ targets', d.Below s p := by
    rintro ⟨p, hmem, hbelow⟩
    exact .inr ⟨p, hmem, hstands.below p hbelow, hstands'.below p hbelow⟩
  induction h generalizing n' targets' vs' with
  | state hhist => exact .inl (leads_state hhist h').symm
  | @recorded n h xs hhist hfind _ =>
      refine (wf.left_or_kept config history exiting hhist).elim hleft fun hkept => .inl ?_
      exact (leads_recorded hhist (hkept.trans hfind) h').symm
  | @regions n h xs hhist hfind hdefaults hstates =>
      refine (wf.left_or_kept config history exiting hhist).elim hleft fun hkept => .inl ?_
      rcases leads_unrecorded hhist (hkept.trans hfind) h' with
        ⟨hdefaults', -⟩ | ⟨y, _, _, hdefaults', hleads⟩
      · exact hdefaults.symm.trans hdefaults'
      · rw [hdefaults] at hdefaults'
        subst hdefaults'
        exact (leads_state (hstates _ List.mem_cons_self) hleads).symm
  | @default n h y xs vs hhist hfind hdefaults hleads ih =>
      refine (wf.left_or_kept config history exiting hhist).elim hleft fun hkept => ?_
      obtain ⟨p, hp⟩ := wf.history_ne_root hhist
      have hy := (wf.below_of_mem_historyDefaults hset hhist hp (x := y) (by simp [hdefaults])).2
      rcases leads_unrecorded hhist (hkept.trans hfind) h' with
        ⟨hdefaults', hstates⟩ | ⟨y', _, _, hdefaults', hleads'⟩
      · rw [hdefaults] at hdefaults'
        subst hdefaults'
        exact .inl (leads_state (hstates _ List.mem_cons_self) hleads)
      · rw [hdefaults] at hdefaults'
        cases hdefaults'
        have hin := wf.standsFor_of_leads hset hrec hy hleads
        have hin' := wf.standsFor_of_leads hset hrec' hy hleads'
        refine ih hy hleads' hin hin' ?_
        rintro ⟨q, hmem, hbelow⟩
        exact .inr ⟨q, hmem, hin.below q hbelow, hin'.below q hbelow⟩

end WellFormed

end Statechart.Definition
