import Statechart.Proofs.Build
import Statechart.Proofs.Frame
import Statechart.Proofs.Moves
import Statechart.Proofs.Completion
import Statechart.Proofs.Selection

/-!
# Microsteps

The configuration after a microstep. `microstep_parts` and the lemmas before it say what a microstep
consists of. `microstep_ok` says what it makes of the configuration, which depends on the sets of
states left and entered alone: actions do not touch it.
-/

namespace Statechart

namespace Machine

open StepM

variable {m : Machine} {w w' : Work} {event : Event}

/-! ## Actions -/

theorem Acts.config_eq (h : m.Acts w w') : w'.snapshot.config = w.snapshot.config := by
  cases h <;> rfl

variable (m) in
/-- Actions touch neither the configuration nor the history. -/
theorem kept_by_acts {α : Type} {x : StepM α} (h : Runs m.Acts x) {a : α}
    (hok : x w = .ok a w') : w'.snapshot.config = w.snapshot.config ∧
      w'.snapshot.history = w.snapshot.history :=
  ⟨h.keeps (fun _ _ => Acts.config_eq) hok, h.keeps (fun _ _ => Acts.history_eq) hok⟩

/-! ## The parts of a microstep -/

theorem exitState_parts {state : Nat} (h : m.exitState event state w = .ok () w') :
    ∃ w₁, m.execute (m.definition.node state).exit event w = .ok () w₁ ∧
      w' = { w₁ with
        snapshot := { w₁.snapshot with config := w₁.snapshot.config.erase state }
        journal := .exited state :: w₁.journal } := by
  obtain ⟨_, w₁, hexit, h⟩ := bind_eq_ok h
  obtain ⟨_, w₂, hmark, herase⟩ := bind_eq_ok h
  cases hmark
  cases herase
  exact ⟨w₁, hexit, rfl⟩

theorem runExits_cons {state : Nat} {rest : List Nat}
    (h : m.runExits event (state :: rest) w = .ok () w') :
    ∃ w₁, m.execute (m.definition.node state).exit event w = .ok () w₁ ∧
      m.runExits event rest { w₁ with journal := .exited state :: w₁.journal } = .ok () w' := by
  obtain ⟨_, w₁, hexit, h⟩ := bind_eq_ok h
  obtain ⟨_, w₂, hmark, hrest⟩ := bind_eq_ok h
  cases hmark
  exact ⟨w₁, hexit, hrest⟩

theorem runTransitions_cons {t : Transition Logic} {rest : List (Transition Logic)}
    (h : m.runTransitions event (t :: rest) w = .ok () w') :
    ∃ w₁, m.execute t.actions event w = .ok () w₁ ∧
      m.runTransitions event rest { w₁ with journal := .taken t.index :: w₁.journal } =
        .ok () w' := by
  obtain ⟨_, w₁, hact, h⟩ := bind_eq_ok h
  obtain ⟨_, w₂, hmark, hrest⟩ := bind_eq_ok h
  cases hmark
  exact ⟨w₁, hact, hrest⟩

/-- The entry actions of a state run while it is in the configuration and not yet in the journal. What
it completes around it, if it is final, comes after that. -/
theorem enterStates_cons {raised : List Nat} {state : Nat} {rest : List Nat}
    (h : m.enterStates event raised (state :: rest) w = .ok () w') :
    ∃ w₁ raised' w₂, m.execute (m.definition.node state).entry event { w with
        snapshot := { w.snapshot with config := w.snapshot.config.insert state } } = .ok () w₁ ∧
      ((m.definition.node state).isFinal = true ∧ m.completeAround raised state
          { w₁ with journal := .entered state :: w₁.journal } = .ok raised' w₂ ∨
        (m.definition.node state).isFinal = false ∧ raised' = raised ∧
          w₂ = { w₁ with journal := .entered state :: w₁.journal }) ∧
      m.enterStates event raised' rest w₂ = .ok () w' := by
  obtain ⟨_, _, hinsert, h⟩ := bind_eq_ok h
  obtain ⟨_, w₁, hentry, h⟩ := bind_eq_ok h
  obtain ⟨_, _, hmark, h⟩ := bind_eq_ok h
  cases hinsert
  cases hmark
  cases hfinal : (m.definition.node state).isFinal with
  | true =>
      simp only [hfinal, if_true] at h
      obtain ⟨raised', w₂, haround, hrest⟩ := bind_eq_ok h
      exact ⟨w₁, raised', w₂, hentry, .inl ⟨rfl, haround⟩, hrest⟩
  | false =>
      simp only [hfinal, Bool.false_eq_true, if_false] at h
      exact ⟨w₁, raised, _, hentry, .inr ⟨rfl, rfl, rfl⟩, h⟩

/-- A pass of entries, and then the end of the machine if its root is complete by then. The status is
set before the exit actions of all that is active. -/
theorem enter_parts {entering : List Nat} (h : m.enter event entering w = .ok () w') :
    ∃ w₁, m.enterStates event [] entering w = .ok () w₁ ∧
      ((w₁.snapshot.status = .active ∧
          m.definition.isInFinalState w₁.snapshot.config Definition.rootIndex = true) ∧
        m.runExits event w₁.snapshot.config.toList.reverse { w₁ with
          snapshot := { w₁.snapshot with
            status := .done
            output := m.finalOutput w₁.snapshot.config } } = .ok () w' ∨
      ¬ (w₁.snapshot.status = .active ∧
          m.definition.isInFinalState w₁.snapshot.config Definition.rootIndex = true) ∧ w' = w₁) := by
  obtain ⟨_, w₁, hstates, h⟩ := bind_eq_ok h
  obtain ⟨_, _, hget, h⟩ := bind_eq_ok h
  cases hget
  refine ⟨w₁, hstates, ?_⟩
  simp only at h
  split at h
  · rename_i hcomplete
    obtain ⟨_, w₂, hdone, h⟩ := bind_eq_ok h
    obtain ⟨_, _, hget, hexits⟩ := bind_eq_ok h
    cases hdone
    cases hget
    exact .inl ⟨hcomplete, hexits⟩
  · rename_i hopen
    cases h
    exact .inr ⟨hopen, rfl⟩

/-- The history after a microstep has begun. -/
def historyAfter (m : Machine) (s : MachineSnapshot) (ts : List (Transition Logic)) :
    HistoryValue :=
  m.definition.recordHistory s.config (m.leaving s ts).toList.reverse s.history

/-- A microstep without a transition that does something does nothing. Any other one leaves states,
carries out the transitions and enters states. -/
theorem microstep_parts {ts : List Nat} (h : m.microstep ts event w = .ok () w') :
    (m.definition.permitted ts = [] ∧ w' = w) ∨ ∃ w₁ w₂,
      m.exitStates event (m.leaving w.snapshot (m.definition.permitted ts)).toList.reverse
          { w with
            snapshot := { w.snapshot with
              history := m.historyAfter w.snapshot (m.definition.permitted ts) }
            journal := .microstep ((m.definition.permitted ts).map Transition.index) ::
              w.journal } = .ok () w₁ ∧
        m.runTransitions event (m.definition.permitted ts) w₁ = .ok () w₂ ∧
          m.enter event ((m.definition.entrySet w₂.snapshot.history
            (m.definition.permitted ts)).toList.filter fun state =>
              !w₂.snapshot.config.contains state) w₂ = .ok () w' := by
  unfold microstep at h
  simp only at h
  split at h
  · rename_i hempty
    cases h
    exact .inl ⟨List.isEmpty_iff.mp hempty, rfl⟩
  · obtain ⟨_, w₁, hmark, h⟩ := bind_eq_ok h
    obtain ⟨_, _, hget, h⟩ := bind_eq_ok h
    cases hget
    obtain ⟨_, w₂, hrecord, h⟩ := bind_eq_ok h
    obtain ⟨_, w₃, hexit, h⟩ := bind_eq_ok h
    obtain ⟨_, w₄, hrun, h⟩ := bind_eq_ok h
    obtain ⟨_, _, hget, henter⟩ := bind_eq_ok h
    cases hget
    cases hmark
    cases hrecord
    exact .inr ⟨w₃, w₄, hexit, hrun, henter⟩

/-! ## Leaving and entering -/

theorem exitStates_ok : ∀ {states : List Nat} {w : Work},
    m.exitStates event states w = .ok () w' → w'.snapshot.history = w.snapshot.history ∧
      ∀ i, i ∈ w'.snapshot.config ↔ i ∈ w.snapshot.config ∧ i ∉ states
  | [], w, h => by
      cases h
      simp
  | state :: rest, w, h => by
      obtain ⟨_, w₁, hstate, hrest⟩ := bind_eq_ok h
      obtain ⟨w₂, hexit, rfl⟩ := exitState_parts hstate
      obtain ⟨hconfig, hhist⟩ := m.kept_by_acts runs_execute hexit
      obtain ⟨hhist', hmem⟩ := exitStates_ok hrest
      refine ⟨hhist'.trans hhist, fun i => ?_⟩
      rw [hmem, NodeSet.mem_erase, hconfig, List.mem_cons, not_or]
      exact ⟨fun ⟨⟨hne, hi⟩, hno⟩ => ⟨hi, hne, hno⟩, fun ⟨hi, hne, hno⟩ => ⟨⟨hne, hi⟩, hno⟩⟩

theorem enterStates_ok : ∀ {states raised : List Nat} {w : Work},
    m.enterStates event raised states w = .ok () w' →
      w'.snapshot.history = w.snapshot.history ∧
        ∀ i, i ∈ w'.snapshot.config ↔ i ∈ w.snapshot.config ∨ i ∈ states
  | [], raised, w, h => by
      cases h
      simp
  | state :: rest, raised, w, h => by
      obtain ⟨w₁, raised', w₂, hentry, haround, hrest⟩ := enterStates_cons h
      obtain ⟨hconfig, hhist⟩ := m.kept_by_acts runs_execute hentry
      obtain ⟨hconfig', hhist'⟩ : w₂.snapshot.config = w₁.snapshot.config ∧
          w₂.snapshot.history = w₁.snapshot.history := by
        rcases haround with ⟨-, haround⟩ | ⟨-, -, rfl⟩
        · exact (m.kept_by_acts runs_completeAround haround :)
        · exact ⟨rfl, rfl⟩
      obtain ⟨hhist'', hmem⟩ := enterStates_ok hrest
      refine ⟨hhist''.trans (hhist'.trans hhist), fun i => ?_⟩
      rw [hmem, hconfig', hconfig, NodeSet.mem_insert, List.mem_cons, or_comm (a := i = state),
        or_assoc]

theorem enter_ok {entering : List Nat} (h : m.enter event entering w = .ok () w') :
    w'.snapshot.history = w.snapshot.history ∧
      ∀ i, i ∈ w'.snapshot.config ↔ i ∈ w.snapshot.config ∨ i ∈ entering := by
  obtain ⟨w₁, hstates, ⟨-, hexits⟩ | ⟨-, rfl⟩⟩ := enter_parts h
  · obtain ⟨hconfig, hhist⟩ := m.kept_by_acts runs_runExits hexits
    obtain ⟨hhist', hmem⟩ := enterStates_ok hstates
    exact ⟨hhist.trans hhist', fun i => by rw [hconfig]; exact hmem i⟩
  · exact enterStates_ok hstates

/-! ## Microsteps -/

theorem mem_leaving {s : MachineSnapshot} {ts : List (Transition Logic)} {i : Nat} :
    i ∈ m.leaving s ts ↔ ∃ t ∈ ts, i ∈ m.definition.exitSet s.config s.history t := by
  have hfold : ∀ (ts : List (Transition Logic)) (exit : Configuration),
      i ∈ ts.foldl (fun exit t =>
        exit.union (m.definition.exitSet s.config s.history t)) exit ↔
          i ∈ exit ∨ ∃ t ∈ ts, i ∈ m.definition.exitSet s.config s.history t := by
    intro ts
    induction ts with
    | nil => simp
    | cons t rest ih =>
        intro exit
        rw [List.foldl_cons, ih, NodeSet.mem_union, List.exists_mem_cons_iff, or_assoc]
  rw [leaving, hfold]
  simp

theorem leaving_nil {s : MachineSnapshot} : (m.leaving s []).toList = [] :=
  List.eq_nil_iff_forall_not_mem.mpr fun i h =>
    NodeSet.not_mem_empty i ((NodeSet.mem_toList _ i).mp h)

/-- What a microstep makes of the configuration: it leaves the exit sets and enters the entry set,
whatever its actions do. -/
theorem microstep_ok {ts : List Nat} (h : m.microstep ts event w = .ok () w') :
    w'.snapshot.history = m.historyAfter w.snapshot (m.definition.permitted ts) ∧
    ∀ i, i ∈ w'.snapshot.config ↔
      (i ∈ w.snapshot.config ∧ ∀ t ∈ m.definition.permitted ts,
        i ∉ m.definition.exitSet w.snapshot.config w.snapshot.history t) ∨
      i ∈ m.definition.entrySet (m.historyAfter w.snapshot (m.definition.permitted ts))
        (m.definition.permitted ts) := by
  rcases microstep_parts h with ⟨hnil, rfl⟩ | ⟨w₁, w₂, hexit, hrun, henter⟩
  · rw [hnil, historyAfter, leaving_nil]
    refine ⟨rfl, fun i => ?_⟩
    have hno : ∀ history, i ∉ m.definition.entrySet history [] :=
      fun _ => NodeSet.not_mem_empty i
    simp [hno]
  · obtain ⟨hhist₁, hmem₁⟩ := exitStates_ok hexit
    obtain ⟨hconfig₂, hhist₂⟩ := m.kept_by_acts runs_runTransitions hrun
    obtain ⟨hhist, hmem⟩ := enter_ok henter
    have hafter : w₂.snapshot.history =
        m.historyAfter w.snapshot (m.definition.permitted ts) := hhist₂.trans hhist₁
    have hleft : ∀ i, i ∈ w₂.snapshot.config ↔ i ∈ w.snapshot.config ∧
        ∀ t ∈ m.definition.permitted ts,
          i ∉ m.definition.exitSet w.snapshot.config w.snapshot.history t := by
      intro i
      rw [hconfig₂, hmem₁, List.mem_reverse, NodeSet.mem_toList, mem_leaving]
      simp only [not_exists, not_and]
    refine ⟨hhist.trans hafter, fun i => ?_⟩
    rw [hmem, ← hafter, ← hleft, List.mem_filter, NodeSet.mem_toList, Bool.not_eq_true',
      ← Bool.not_eq_true, NodeSet.contains_eq_true]
    -- a state to be entered that has stayed active is not entered anew
    constructor
    · exact fun h => h.imp_right And.left
    · rintro (hi | hi)
      · exact .inl hi
      · by_cases hactive : i ∈ w₂.snapshot.config
        · exact .inl hactive
        · exact .inr ⟨hi, hactive⟩

end Machine

/-! ## Plain transitions -/

namespace Definition

variable {L : Type} (d : Definition L)

/-- A transition has a single target, which is no history state, and not the source unless that is
entered anew. -/
structure Aimed (t : Transition L) (x : Nat) : Prop where
  targets_eq : t.targets = [x]
  history : (d.node x).isHistory = false
  self : t.reenter = true ∨ x ≠ t.source

/-- A transition that has no target or is aimed at one. -/
def Plain (t : Transition L) : Prop := t.targets = [] ∨ ∃ x, d.Aimed t x

variable {d} {config : Configuration} {before after : HistoryValue} {s : Situation}
  {ts ts' : List Nat}

theorem mem_permitted {t : Transition L} :
    t ∈ d.permitted ts ↔ ∃ i ∈ ts, d.transition i = t ∧ t.forbidden = false := by
  simp only [permitted, List.mem_filter, List.mem_map, Bool.not_eq_true']
  constructor
  · rintro ⟨⟨i, hi, rfl⟩, h⟩
    exact ⟨i, hi, rfl, h⟩
  · rintro ⟨i, hi, rfl, h⟩
    exact ⟨⟨i, hi, rfl⟩, h⟩

namespace WellFormed

variable (wf : d.WellFormed)
include wf

/-- The source of a selected transition is active. -/
theorem source_mem (hconfig : d.Possible s.config) (hsel : d.Selection s ts) {t : Nat}
    (ht : t ∈ ts) : (d.transition t).source ∈ s.config := by
  obtain ⟨pick, hpick⟩ := hsel.picked
  obtain ⟨leaf, hleaf, _, hwithin⟩ := hpick t ht
  exact wf.mem_of_within hconfig hwithin
    ((NodeSet.mem_toList _ _).mp (List.mem_filter.mp hleaf).1)

/-- Selected transitions that leave something have domains that lie apart, in whatever order they
are taken. -/
theorem independent_of_selection (hconfig : d.Possible s.config) (hsel : d.Selection s ts)
    (horder : ts'.Perm ts)
    (hdomain : ∀ t ∈ d.permitted ts', t.isTargetless = false →
      d.domain s.history t = d.domain after t)
    (hleaves : ∀ t ∈ d.permitted ts', t.isTargetless = false →
      ∃ i ∈ s.config, d.Under (d.domain s.history t) i) :
    d.Independent after (d.permitted ts') := by
  have hpair : (ts'.map d.transition).Pairwise fun t t' =>
      ∀ i, ¬ (i ∈ d.exitSet s.config s.history t ∧ i ∈ d.exitSet s.config s.history t') :=
    List.pairwise_map.mpr
      ((horder.pairwise_iff fun {_ _} h i hi => h i hi.symm).mpr hsel.disjoint)
  have hpermitted : (d.permitted ts').Pairwise fun t t' =>
      ∀ i, ¬ (i ∈ d.exitSet s.config s.history t ∧ i ∈ d.exitSet s.config s.history t') :=
    hpair.filter _
  refine hpermitted.imp_of_mem ?_
  intro t t' ht ht' hdisj hless hless'
  rw [← hdomain t ht hless, ← hdomain t' ht' hless']
  refine wf.apart_of_disjoint hconfig (hleaves t ht hless) (hleaves t' ht' hless') ?_
  rintro i hi ⟨hu, hu'⟩
  exact hdisj i ⟨(mem_exitSet hconfig hless).mpr ⟨hi, hu⟩,
    (mem_exitSet hconfig hless').mpr ⟨hi, hu'⟩⟩

/-- Something active lies under the domain of an aimed transition. -/
theorem leaves_of_aimed (hconfig : d.Possible config) {t : Transition L}
    (hsource : t.source ∈ config) {x : Nat} (haim : d.Aimed t x) :
    ∃ i ∈ config, d.Under (d.domain before t) i := by
  cases ha : d.domain before t with
  | none => exact ⟨0, hconfig.root, wf.size_pos⟩
  | some a =>
      have hact := wf.mem_of_within hconfig (wf.domain_spec ha).1 hsource
      exact wf.exists_active_below hconfig hact
        (below_domain haim.targets_eq haim.history haim.self ha) haim.history

/-- A selected transition with a target is permitted, whichever order they are taken in. -/
theorem mem_permitted_of_target (hsel : d.Selection s ts) (horder : ts'.Perm ts) {k x : Nat}
    (hk : k ∈ ts) (hx : x ∈ (d.transition k).targets) :
    d.transition k ∈ d.permitted ts' ∧ (d.transition k).isTargetless = false := by
  refine ⟨mem_permitted.mpr ⟨k, horder.mem_iff.mpr hk, rfl, ?_⟩, ?_⟩
  · by_contra hforbidden
    rw [wf.forbidden_targets k (hsel.lt k hk) (by simpa using hforbidden)] at hx
    cases hx
  · cases htargets : (d.transition k).targets with
    | nil =>
        rw [htargets] at hx
        cases hx
    | cons => simp [Transition.isTargetless, htargets]

omit wf in
/-- Of plain transitions the permitted ones with a target are aimed. -/
theorem aimed_of_permitted (horder : ts'.Perm ts) (hplain : ∀ t ∈ ts, d.Plain (d.transition t))
    {t : Transition L} (ht : t ∈ d.permitted ts') (hless : t.isTargetless = false) :
    ∃ k ∈ ts, d.transition k = t ∧ ∃ x, d.Aimed t x := by
  obtain ⟨k, hk, rfl, -⟩ := mem_permitted.mp ht
  have hkts := horder.mem_iff.mp hk
  refine ⟨k, hkts, rfl, (hplain k hkts).resolve_left fun hnil => ?_⟩
  simp [Transition.isTargetless, hnil] at hless

omit wf in
/-- History does not matter for where an aimed transition leads. -/
theorem domain_of_aimed {t : Transition L} {x : Nat} (haim : d.Aimed t x) :
    d.domain before t = d.domain after t :=
  domain_congr ((effectiveTargets_state _ haim.targets_eq haim.history).trans
    (effectiveTargets_state _ haim.targets_eq haim.history).symm)

/-- Plain transitions refill the domains of those of them with a target. -/
theorem mem_refills_of_plain (after : HistoryValue) (hsel : d.Selection s ts) (horder : ts'.Perm ts)
    (hplain : ∀ t ∈ ts, d.Plain (d.transition t)) {l : Option Nat × List Nat} :
    l ∈ d.refills after (d.permitted ts') ↔
      ∃ k ∈ ts, ∃ x ∈ (d.transition k).targets, d.Aimed (d.transition k) x ∧
        x < d.nodes.size ∧
          (d.domain after (d.transition k), d.effectiveTargets after (d.transition k)) = l := by
  rw [mem_refills]
  constructor
  · rintro ⟨t, ht, hless, hl⟩
    obtain ⟨k, hk, rfl, x, haim⟩ := aimed_of_permitted horder hplain ht hless
    have hx : x ∈ (d.transition k).targets := by simp [haim.targets_eq]
    exact ⟨k, hk, x, hx, haim, wf.target_lt k (hsel.lt k hk) x hx, hl⟩
  · rintro ⟨k, hk, x, hx, _, _, hl⟩
    obtain ⟨ht, hless⟩ := wf.mem_permitted_of_target hsel horder hk hx
    exact ⟨_, ht, hless, hl⟩

/-- A target of a plain transition is the one it is aimed at. -/
theorem aimed_of_target (hsel : d.Selection s ts) (hplain : ∀ t ∈ ts, d.Plain (d.transition t))
    {k x : Nat} (hk : k ∈ ts) (hx : x ∈ (d.transition k).targets) :
    d.Aimed (d.transition k) x ∧ x < d.nodes.size := by
  refine ⟨?_, wf.target_lt k (hsel.lt k hk) x hx⟩
  rcases hplain k hk with hnil | ⟨x', haim⟩
  · rw [hnil] at hx
    cases hx
  · rw [haim.targets_eq, List.mem_singleton] at hx
    exact hx ▸ haim

/-- An aimed transition from an active state is a move. -/
theorem move_of_aimed {t : Transition L} {x : Nat} (haim : d.Aimed t x)
    (hlt : x < d.nodes.size) (hsource : t.source ∈ config) : d.Move config before after t :=
  wf.move_state hsource haim.targets_eq hlt haim.history haim.self

/-- Around a single target under `top`, the whole tree is filled like the subtree. -/
theorem mem_resolve_under {previous : Configuration} {x i : Nat} {top : Option Nat}
    (hlt : x < d.nodes.size) (hx : ∀ a, top = some a → d.Within x a) (hi : d.Under top i) :
    i ∈ d.resolve previous [x] ↔ d.Filled previous [x] top i := by
  rw [wf.mem_resolve (by simpa using hlt) (by simp)]
  cases top with
  | none => rfl
  | some a =>
      have ha : a < d.nodes.size := Nat.lt_of_le_of_lt (wf.le_of_within (hx a rfl)) hlt
      have hunder : d.Under none a := ha
      refine ⟨fun h => (wf.filled_split hunder hi h).2, fun h => ?_⟩
      exact (wf.filled_of_targeted (targeted_singleton.mpr (hx a rfl)) hunder).trans h

/-- To fill the whole tree around the root is to enter the root by default. -/
theorem filled_root {i : Nat} : d.Filled .empty [0] none i ↔ d.ByDefault 0 i := by
  have hroot : d.Under none 0 := wf.size_pos
  have hno : ∀ t ∈ [0], ¬ d.Below t 0 := fun t ht h =>
    absurd (wf.below_bounds h).1 (by simp_all)
  constructor
  · intro h
    rcases wf.within_root (wf.filled_lt h) with rfl | hbelow
    · exact .inl rfl
    · exact .inr ((wf.filled_of_untargeted hno).mp (wf.filled_split hroot hbelow h).2)
  · rintro (rfl | h)
    · exact wf.filled_of_targeted (targeted_singleton.mpr (.inl rfl)) hroot
    · exact (wf.filled_of_targeted (targeted_singleton.mpr (.inl rfl)) hroot).trans
        ((wf.filled_of_untargeted hno).mpr h)

end WellFormed

end Definition

namespace Machine

variable {m : Machine} {w w' : Work} {event : Event}

/-- Entering a machine that is in no state completes the root. -/
theorem enterInitial_ok (wf : m.definition.WellFormed) (hempty : w.snapshot.config = .empty)
    (h : m.enterInitial event w = .ok () w') :
    w'.snapshot.config = m.definition.resolve .empty [Definition.rootIndex] := by
  obtain ⟨-, hmem⟩ := enter_ok h
  refine NodeSet.ext fun i => ?_
  have hsize : ∀ t ∈ [Definition.rootIndex], t < m.definition.nodes.size := by
    simpa [Definition.rootIndex] using wf.size_pos
  have hhist : (m.definition.node 0).isHistory = false := by
    simpa [StateNode.isHistory] using wf.root_kind.1
  have henter : i ∈ m.definition.enterState [] .empty 0 ↔
      i ∈ NodeSet.empty ∨ m.definition.ByDefault 0 i :=
    wf.enters_enterState wf.size_pos hhist .empty (Definition.not_covered_empty 0) i
  rw [hmem, hempty, NodeSet.mem_toList, wf.mem_resolve hsize (by simp)]
  show i ∈ NodeSet.empty ∨ i ∈ m.definition.enterState [] .empty 0 ↔
    m.definition.Filled .empty [0] none i
  rw [henter, wf.filled_root]
  simp

/-- A step fills the subtrees of its transitions' domains anew if these are moves that lie apart. -/
theorem microstep_refills (wf : m.definition.WellFormed) {ts : List Nat}
    (hconfig : m.definition.Possible w.snapshot.config)
    (hmoves : ∀ t ∈ m.definition.permitted ts, t.isTargetless = false →
      m.definition.Move w.snapshot.config w.snapshot.history
        (m.historyAfter w.snapshot (m.definition.permitted ts)) t)
    (hind : m.definition.Independent (m.historyAfter w.snapshot (m.definition.permitted ts))
      (m.definition.permitted ts))
    (h : m.microstep ts event w = .ok () w') :
    m.definition.Refilled .empty w.snapshot.config
      (m.definition.refills (m.historyAfter w.snapshot (m.definition.permitted ts))
        (m.definition.permitted ts)) w'.snapshot.config :=
  wf.refilled_of_moves hconfig hmoves hind (microstep_ok h).2

/-! ## Plain microsteps -/

/-- What an aimed transition refills is what completing its target has under its domain. -/
theorem filled_of_aimed_iff (wf : m.definition.WellFormed) {before after : HistoryValue}
    {t : Transition Logic} {x i : Nat} (haim : m.definition.Aimed t x)
    (hlt : x < m.definition.nodes.size) :
    m.definition.Filled .empty (m.definition.effectiveTargets after t)
      (m.definition.domain after t) i ↔
        i ∈ m.definition.resolve .empty [x] ∧
          m.definition.Under (m.definition.domain before t) i := by
  obtain ⟨htargets, hhist, hself⟩ := haim
  have hbefore := Definition.WellFormed.effectiveTargets_state before htargets hhist
  have hafter := Definition.WellFormed.effectiveTargets_state after htargets hhist
  rw [Definition.WellFormed.domain_congr (hbefore.trans hafter.symm), hafter]
  have hbelow : ∀ a, m.definition.domain after t = some a → m.definition.Within x a :=
    fun a ha => .inr (Definition.WellFormed.below_domain htargets hhist hself ha)
  constructor
  · intro h
    have hunder := wf.filled_under h
    exact ⟨(wf.mem_resolve_under hlt hbelow hunder).mpr h, hunder⟩
  · exact fun ⟨h, hunder⟩ => (wf.mem_resolve_under hlt hbelow hunder).mp h

/-- A microstep of selected plain transitions refills the domains of those with a target. -/
theorem refilled_of_plain (wf : m.definition.WellFormed)
    (hconfig : m.definition.Possible w.snapshot.config) {s : Situation}
    (hs : s.config = w.snapshot.config ∧ s.history = w.snapshot.history) {ts ts' : List Nat}
    (hsel : m.definition.Selection s ts)
    (hplain : ∀ t ∈ ts, m.definition.Plain (m.definition.transition t))
    (horder : ts'.Perm ts) (h : m.microstep ts' event w = .ok () w') :
    m.definition.Refilled .empty w.snapshot.config
      (m.definition.refills (m.historyAfter w.snapshot (m.definition.permitted ts'))
        (m.definition.permitted ts')) w'.snapshot.config := by
  obtain ⟨hsconfig, hshist⟩ := hs
  -- each of them has one target, and its source is active
  have haimed : ∀ t ∈ m.definition.permitted ts', t.isTargetless = false →
      t.source ∈ w.snapshot.config ∧
        ∃ x, m.definition.Aimed t x ∧ x < m.definition.nodes.size := by
    intro t ht hless
    obtain ⟨k, hk, rfl, x, haim⟩ :=
      Definition.WellFormed.aimed_of_permitted horder hplain ht hless
    rw [← hsconfig]
    exact ⟨wf.source_mem (by rwa [hsconfig]) hsel hk, x, haim,
      wf.target_lt k (hsel.lt k hk) x (by simp [haim.targets_eq])⟩
  have hmoves : ∀ t ∈ m.definition.permitted ts', t.isTargetless = false →
      m.definition.Move w.snapshot.config w.snapshot.history
        (m.historyAfter w.snapshot (m.definition.permitted ts')) t := by
    intro t ht hless
    obtain ⟨hsource, x, haim, hlt⟩ := haimed t ht hless
    exact wf.move_of_aimed haim hlt hsource
  refine microstep_refills wf hconfig hmoves ?_ h
  refine wf.independent_of_selection (by rwa [hsconfig]) hsel horder ?_ ?_
  · rw [hshist]
    exact fun t ht hless => (hmoves t ht hless).domain_eq
  · rw [hsconfig, hshist]
    intro t ht hless
    obtain ⟨hsource, x, haim, -⟩ := haimed t ht hless
    exact wf.leaves_of_aimed hconfig hsource haim

/-- A microstep of selected transitions, in any order, that have at most one target each, which is
neither a history state nor the source unless that is reentered, replaces what is active under the
domains of these transitions by what completing their targets has there. Entering a machine for
the first time completes the root. -/
theorem microstep_replaces {json : Json} (hdef : Definition.ofJson json = .ok m.definition)
    (hvalid : m.definition.isValid w.snapshot.config = true)
    (hne : w.snapshot.config ≠ .empty)
    (hstates : ∀ i ∈ w.snapshot.config, i < m.definition.nodes.size)
    {s : Situation} (hs : s.config = w.snapshot.config ∧ s.history = w.snapshot.history)
    {cause : Event} {ts ts' : List Nat}
    (hselect : m.definition.select s cause = .ok ts ∨
      m.definition.selectEventless s cause = .ok ts)
    (hplain : ∀ t ∈ ts, m.definition.Plain (m.definition.transition t))
    (horder : ts'.Perm ts) (h : m.microstep ts' event w = .ok () w') :
    (∀ i, i ∈ w'.snapshot.config ↔
      (i ∈ w.snapshot.config ∧ ∀ t ∈ ts, ∀ x ∈ (m.definition.transition t).targets,
        ¬ m.definition.Under
          (m.definition.domain w.snapshot.history (m.definition.transition t)) i) ∨
      ∃ t ∈ ts, ∃ x ∈ (m.definition.transition t).targets,
        i ∈ m.definition.resolve .empty [x] ∧ m.definition.Under
          (m.definition.domain w.snapshot.history (m.definition.transition t)) i) ∧
    m.definition.isValid w'.snapshot.config = true ∧
    (∀ v v' : Work, v.snapshot.config = .empty → m.enterInitial event v = .ok () v' →
      v'.snapshot.config = m.definition.resolve .empty [Definition.rootIndex]) := by
  have wf := Definition.wellFormed_of_ofJson hdef
  have hconfig := wf.possible_iff.mpr ⟨hvalid, hne, hstates⟩
  have hsel : m.definition.Selection s ts :=
    hselect.elim wf.selection_of_select wf.selection_of_selectEventless
  have hrefilled := refilled_of_plain wf hconfig hs hsel hplain horder h
  -- each refill belongs to a selected transition and is aimed at its target
  have hmem := fun l => wf.mem_refills_of_plain
    (m.historyAfter w.snapshot (m.definition.permitted ts')) hsel horder hplain (l := l)
  refine ⟨fun i => ?_, (wf.possible_iff.mp (hrefilled.possible wf hconfig)).1,
    fun v v' hempty hinit => enterInitial_ok wf hempty hinit⟩
  rw [hrefilled.mem]
  refine or_congr (and_congr_right fun _ => ⟨fun hno k hk x hx hunder => ?_, fun hno l hl => ?_⟩)
    ⟨?_, ?_⟩
  · obtain ⟨haim, hlt⟩ := wf.aimed_of_target hsel hplain hk hx
    refine hno _ ((hmem _).mpr ⟨k, hk, x, hx, haim, hlt, rfl⟩) ?_
    rwa [Definition.WellFormed.domain_of_aimed haim] at hunder
  · obtain ⟨k, hk, x, hx, haim, _, rfl⟩ := (hmem _).mp hl
    have hunder := hno k hk x hx
    rwa [Definition.WellFormed.domain_of_aimed haim] at hunder
  · rintro ⟨l, hl, hfilled⟩
    obtain ⟨k, hk, x, hx, haim, hlt, rfl⟩ := (hmem _).mp hl
    exact ⟨k, hk, x, hx, (filled_of_aimed_iff wf haim hlt).mp hfilled⟩
  · rintro ⟨k, hk, x, hx, hi⟩
    obtain ⟨haim, hlt⟩ := wf.aimed_of_target hsel hplain hk hx
    exact ⟨_, (hmem _).mpr ⟨k, hk, x, hx, haim, hlt, rfl⟩, (filled_of_aimed_iff wf haim hlt).mpr hi⟩

/-- Two lamps, which one event turns on together. -/
def lampsJson : Json :=
  let lamp : Json := .obj [("initial", .str "off"), ("states", .obj
    [("off", .obj [("on", .obj [("FLIP", .str "lit")])]), ("lit", .obj [])])]
  .obj [("type", .str "parallel"), ("states", .obj [("left", lamp), ("right", lamp)])]

/-- The machine of the lamps, with nothing supplied. -/
def lamps : Machine where
  definition := (Definition.ofJson lampsJson).toOption.getD default
  implementations := default
  spawn := default

/-- The lamps when they are off. -/
def dark : Work :=
  { (default : Work) with
    snapshot := { (default : MachineSnapshot) with
      config := lamps.definition.resolve .empty [Definition.rootIndex] } }

set_option maxRecDepth 100000 in
theorem lamps_flip : ∃ w', lamps.microstep [1, 0] default dark = .ok () w' ∧
    lamps.definition.isValid w'.snapshot.config = true := by
  have hdef : (Definition.ofJson (L := Logic) lampsJson).isOk = true := rfl
  have hstates : dark.snapshot.config.toList.all (· < lamps.definition.nodes.size) = true := rfl
  have hselect : lamps.definition.select (lamps.situation dark.snapshot)
      { (default : Event) with name := "FLIP" } = .ok [0, 1] := rfl
  have hstep : ∃ w', lamps.microstep [1, 0] default dark = .ok () w' := ⟨_, rfl⟩
  obtain ⟨w', h⟩ := hstep
  refine ⟨w', h, (microstep_replaces (ok_of_isOk hdef) rfl ?_ (fun i hi => ?_) ⟨rfl, rfl⟩
    (.inl hselect) ?_ (.swap 0 1 []) h).2.1⟩
  · intro h
    exact absurd (congrArg NodeSet.toList h) (by decide)
  · simpa using List.all_eq_true.mp hstates i ((NodeSet.mem_toList _ i).mpr hi)
  · intro t ht
    rcases List.mem_cons.mp ht with rfl | ht
    · exact .inr ⟨3, rfl, rfl, .inr (by decide)⟩
    · rw [List.mem_singleton.mp ht]
      exact .inr ⟨6, rfl, rfl, .inr (by decide)⟩

end Machine

end Statechart
