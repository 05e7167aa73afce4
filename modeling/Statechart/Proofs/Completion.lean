import Statechart.Proofs.Filling

/-!
# Completion

`mem_resolve`: the one pass in document order that completes some targets to a configuration finds
exactly the states that are filled around them. `possible_iff` relates the test for validity to
`Possible`: a configuration is possible exactly if it is valid, not empty, and made of states.
-/

namespace Statechart.Definition

variable {L : Type} {d : Definition L} {previous config : Configuration} {targets : List Nat}

namespace WellFormed

variable (wf : d.WellFormed)
include wf

/-! ## One pass -/

theorem mem_withAncestors {i : Nat} : i ∈ d.withAncestors targets ↔ d.Targeted targets i := by
  have hfold : ∀ (ts : List Nat) (s : Configuration),
      i ∈ ts.foldl (fun s t => (s.insert t).insertAll (d.properAncestors t none)) s ↔
        i ∈ s ∨ d.Targeted ts i := by
    intro ts
    induction ts with
    | nil => simp
    | cons t rest ih =>
        intro s
        simp only [List.foldl_cons, ih, NodeSet.mem_insertAll, NodeSet.mem_insert,
          wf.mem_properAncestors_none, Targeted, List.exists_mem_cons_iff]
        constructor
        · rintro ((h | rfl | h) | h)
          · exact .inr (.inl (.inr h))
          · exact .inr (.inl (.inl rfl))
          · exact .inl h
          · exact .inr (.inr h)
        · rintro (h | (rfl | h) | h)
          · exact .inl (.inr (.inr h))
          · exact .inl (.inr (.inl rfl))
          · exact .inl (.inl h)
          · exact .inr h
  rw [withAncestors, hfold]
  simp

/-- What one state of the pass adds: children of its own. -/
theorem mem_fill {p j : Nat} (hp : p < d.nodes.size) : j ∈ d.fill previous config p ↔
    j ∈ config ∨ p ∈ config ∧ j ∈ (d.node p).children ∧
      ((d.node p).kind = .parallel ∧ (d.node j).isHistory = false ∨
        (d.node p).kind = .compound ∧ (∀ c ∈ (d.node p).children, c ∉ config) ∧
          d.defaultChild? previous (d.node p) = some j) := by
  unfold fill
  by_cases hmem : p ∈ config
  · have hcontains : config.contains p = true := hmem
    rw [if_pos hcontains]
    cases hk : (d.node p).kind with
    | atomic | final | history => simp [hk]
    | parallel =>
        simp only [hk, NodeSet.mem_insertAll, List.mem_filter, Bool.not_eq_true', hmem,
          true_and, reduceCtorEq, false_and, or_false]
        exact or_comm
    | compound =>
        obtain ⟨c, hc, hdefault, _⟩ := wf.defaultChild?_spec previous hp hk
        simp only [hk, hdefault, hmem, true_and, reduceCtorEq, false_and, false_or,
          Option.some.injEq]
        -- a compound state is filled only while none of its children is there
        by_cases hany : ∃ c ∈ (d.node p).children, c ∈ config
        · rw [if_pos (by simpa [List.any_eq_true] using hany)]
          obtain ⟨c', hc', hact⟩ := hany
          exact ⟨.inl, fun h => h.elim (fun h => h) fun h => absurd hact (h.2.1 c' hc')⟩
        · rw [if_neg (by simpa [List.any_eq_true] using hany), NodeSet.mem_insert]
          constructor
          · rintro (rfl | h)
            · exact .inr ⟨hc, fun c' hc' hact => hany ⟨c', hc', hact⟩, rfl⟩
            · exact .inl h
          · rintro (h | ⟨_, _, rfl⟩)
            · exact .inr h
            · exact .inl rfl
  · have hcontains : ¬ config.contains p = true := hmem
    rw [if_neg hcontains]
    simp [hmem]

/-- The pass up to a position has made the choices of the states before it. -/
theorem mem_fill_range (hlt : ∀ t ∈ targets, t < d.nodes.size) (hne : targets ≠ []) {k : Nat}
    (hk : k ≤ d.nodes.size) {i : Nat} :
    i ∈ (List.range k).foldl (d.fill previous) (d.withAncestors targets) ↔
      d.Targeted targets i ∨ ∃ p < k, (d.node i).parent = some p ∧
        d.Filled previous targets none p ∧ d.Chosen previous targets i (some p) := by
  induction k generalizing i with
  | zero => simp [wf.mem_withAncestors]
  | succ k ih =>
      have ih' := fun {i} => ih (by omega) (i := i)
      have hfilled : ∀ {i}, d.Targeted targets i → d.Filled previous targets none i := by
        rintro i ⟨t, ht, hwithin⟩
        exact wf.filled_of_targeted ⟨t, ht, hwithin⟩
          (Nat.lt_of_le_of_lt (wf.le_of_within hwithin) (hlt t ht))
      -- the state at the position itself is settled by now
      have hself : k ∈ (List.range k).foldl (d.fill previous) (d.withAncestors targets) ↔
          d.Filled previous targets none k := by
        rw [ih']
        constructor
        · rintro (h | ⟨p, _, hp, hpf, hchosen⟩)
          · exact hfilled h
          · exact .next hpf hp hchosen
        · intro h
          obtain ⟨hchosen, hp | ⟨p, hp, hpf⟩⟩ := h.parent
          · obtain ⟨t, rest, rfl⟩ := List.exists_cons_of_ne_nil hne
            rw [wf.parent_eq_none (by omega) hp]
            exact .inl ⟨t, List.mem_cons_self, wf.within_root (hlt t List.mem_cons_self)⟩
          · rw [hp] at hchosen
            exact .inr ⟨p, (wf.parent_lt hp).1, hp, hpf, hchosen⟩
      -- its children are there only for targets within them
      have hchild : ∀ c ∈ (d.node k).children,
          c ∈ (List.range k).foldl (d.fill previous) (d.withAncestors targets) ↔
            d.Targeted targets c := by
        intro c hc
        rw [ih']
        refine ⟨fun h => h.elim (fun h => h) ?_, .inl⟩
        rintro ⟨p, hlt', hp, _⟩
        rw [wf.mem_children.mp hc] at hp
        cases hp
        exact absurd hlt' (Nat.lt_irrefl _)
      rw [List.range_succ, List.foldl_append, List.foldl_cons, List.foldl_nil,
        wf.mem_fill (by omega), ih', hself]
      constructor
      · rintro ((h | ⟨p, hlt', h⟩) | ⟨hkf, hc, hpar | ⟨hcomp, hno, hdefault⟩⟩)
        · exact .inl h
        · exact .inr ⟨p, by omega, h⟩
        · exact .inr ⟨k, by omega, wf.mem_children.mp hc, hkf, .inr (.inl hpar)⟩
        · exact .inr ⟨k, by omega, wf.mem_children.mp hc, hkf, .inr (.inr ⟨hcomp,
            fun c hc ht => hno c hc ((hchild c hc).mpr ht), hdefault⟩)⟩
      · rintro (h | ⟨p, hlt', hp, hpf, hchosen⟩)
        · exact .inl (.inl h)
        · by_cases hpk : p = k
          · subst hpk
            rcases hchosen with h | hpar | ⟨hcomp, hno, hdefault⟩
            · exact .inl (.inl h)
            · exact .inr ⟨hpf, wf.mem_children.mpr hp, .inl hpar⟩
            · exact .inr ⟨hpf, wf.mem_children.mpr hp, .inr ⟨hcomp,
                fun c hc hact => hno c hc ((hchild c hc).mp hact), hdefault⟩⟩
          · exact .inl (.inr ⟨p, by omega, hp, hpf, hchosen⟩)

/-- To complete targets is to fill the whole tree around them. -/
theorem mem_resolve (hlt : ∀ t ∈ targets, t < d.nodes.size) (hne : targets ≠ []) {i : Nat} :
    i ∈ d.resolve previous targets ↔ d.Filled previous targets none i := by
  rw [resolve, wf.mem_fill_range hlt hne (Nat.le_refl _)]
  constructor
  · rintro (⟨t, ht, hwithin⟩ | ⟨p, _, hp, hpf, hchosen⟩)
    · exact wf.filled_of_targeted ⟨t, ht, hwithin⟩
        (Nat.lt_of_le_of_lt (wf.le_of_within hwithin) (hlt t ht))
    · exact .next hpf hp hchosen
  · intro h
    obtain ⟨hchosen, hp | ⟨p, hp, hpf⟩⟩ := h.parent
    · obtain ⟨t, rest, rfl⟩ := List.exists_cons_of_ne_nil hne
      rw [wf.parent_eq_none (wf.filled_lt h) hp]
      exact .inl ⟨t, List.mem_cons_self, wf.within_root (hlt t List.mem_cons_self)⟩
    · rw [hp] at hchosen
      exact .inr ⟨p, wf.filled_lt hpf, hp, hpf, hchosen⟩

/-- Completing targets that can be active together gives a configuration. -/
theorem possible_resolve (agree : d.Agreeing targets) (hne : targets ≠ []) :
    d.Possible (d.resolve previous targets) := by
  have hmem : ∀ i, i ∈ d.resolve previous targets ↔ d.Filled previous targets none i :=
    fun i => wf.mem_resolve agree.lt hne
  refine ⟨fun i hi => wf.filled_lt ((hmem i).mp hi), ?_, fun i hi p hp => ?_,
    fun i hi hk => ?_, fun i hi hk c hc hno => ?_,
    fun i hi => wf.filled_not_history agree ((hmem i).mp hi)⟩
  · obtain ⟨t, rest, rfl⟩ := List.exists_cons_of_ne_nil hne
    exact (hmem 0).mpr (wf.filled_of_targeted
      ⟨t, List.mem_cons_self, wf.within_root (agree.lt t List.mem_cons_self)⟩ wf.size_pos)
  · obtain ⟨-, h | ⟨q, hq, hfilled⟩⟩ := ((hmem i).mp hi).parent
    · rw [hp] at h
      cases h
    · rw [hp] at hq
      cases hq
      exact (hmem p).mpr hfilled
  · have hfilled := (hmem i).mp hi
    obtain ⟨c, hc, hchosen, hunique⟩ :=
      wf.chosen_compound previous agree (wf.filled_lt hfilled) hk
    refine ⟨c, hc, (hmem c).mpr ((wf.filled_child_iff hc (.inr hfilled)).mpr hchosen),
      fun c' hc' hact => hunique c' hc' ?_⟩
    exact (wf.filled_child_iff hc' (.inr hfilled)).mp ((hmem c').mp hact)
  · have hfilled := (hmem i).mp hi
    exact (hmem c).mpr ((wf.filled_child_iff hc (.inr hfilled)).mpr (.inr (.inl ⟨hk, hno⟩)))

/-! ## Validity -/

theorem length_filter_eq_one {p : Nat} (hp : p < d.nodes.size) :
    ((d.node p).children.filter config.contains).length = 1 ↔
      ∃ c ∈ (d.node p).children, c ∈ config ∧
        ∀ c' ∈ (d.node p).children, c' ∈ config → c' = c := by
  have hmem : ∀ c, c ∈ (d.node p).children.filter config.contains ↔
      c ∈ (d.node p).children ∧ c ∈ config := by
    intro c
    simp
  have hnodup : ((d.node p).children.filter config.contains).Nodup :=
    ((wf.children_sorted p hp).imp fun h => Nat.ne_of_lt h).filter _
  constructor
  · intro hlen
    obtain ⟨c, hc⟩ := List.length_eq_one_iff.mp hlen
    rw [hc] at hmem
    obtain ⟨hchild, hact⟩ := (hmem c).mp List.mem_cons_self
    exact ⟨c, hchild, hact,
      fun c' hc' hact' => List.mem_singleton.mp ((hmem c').mpr ⟨hc', hact'⟩)⟩
  · rintro ⟨c, hchild, hact, hunique⟩
    generalize (d.node p).children.filter config.contains = l at hmem hnodup
    match l, hmem, hnodup with
    | [], hmem, _ => exact absurd ((hmem c).mpr ⟨hchild, hact⟩) List.not_mem_nil
    | [_], _, _ => rfl
    | a :: b :: rest, hmem, hnodup =>
        have ha := (hmem a).mp (by simp)
        have hb := (hmem b).mp (by simp)
        have heq : a = b := (hunique a ha.1 ha.2).trans (hunique b hb.1 hb.2).symm
        exact absurd (heq ▸ List.mem_cons_self) (List.nodup_cons.mp hnodup).1

theorem isValidAt_iff {i : Nat} (hi : i < d.nodes.size) : d.isValidAt config i = true ↔
    (∀ p, (d.node i).parent = some p → p ∈ config) ∧
      ((d.node i).kind = .compound → ∃ c ∈ (d.node i).children, c ∈ config ∧
        ∀ c' ∈ (d.node i).children, c' ∈ config → c' = c) ∧
      ((d.node i).kind = .parallel → ∀ c ∈ (d.node i).children,
        (d.node c).isHistory = false → c ∈ config) ∧ (d.node i).isHistory = false := by
  rw [isValidAt, Bool.and_eq_true, ← wf.length_filter_eq_one hi]
  refine and_congr ?_ ?_
  · cases (d.node i).parent with
    | none => simp
    | some p => simp
  · cases hk : (d.node i).kind with
    | atomic | final | history | compound => simp [StateNode.isHistory, hk]
    | parallel =>
        simp only [List.all_eq_true, Bool.or_eq_true, NodeSet.contains_eq_true]
        have hself : (d.node i).isHistory = false := by simp [StateNode.isHistory, hk]
        constructor
        · refine fun h => ⟨nofun, fun _ c hc hno => ?_, hself⟩
          rcases h c hc with hhist | hact
          · rw [hhist] at hno
            cases hno
          · exact hact
        · rintro ⟨_, h, _⟩ c hc
          cases hhist : (d.node c).isHistory with
          | true => exact .inl rfl
          | false => exact .inr (h trivial c hc hhist)

omit wf in
theorem isValidAt_of_valid (h : d.isValid config = true) {i : Nat} (hi : i ∈ config) :
    d.isValidAt config i = true :=
  List.all_eq_true.mp h i ((NodeSet.mem_toList _ i).mpr hi)

/-- In a valid configuration the parents of active states are active. -/
theorem parent_mem_of_valid (h : d.isValid config = true) {i p : Nat} (hi : i ∈ config)
    (hp : (d.node i).parent = some p) : p ∈ config :=
  ((wf.isValidAt_iff (wf.parent_lt hp).2).mp (isValidAt_of_valid h hi)).1 p hp

/-- A configuration is possible exactly if it is valid, not empty, and made of states. -/
theorem possible_iff : d.Possible config ↔
    d.isValid config = true ∧ config ≠ .empty ∧ ∀ i ∈ config, i < d.nodes.size := by
  simp only [isValid, List.all_eq_true, NodeSet.mem_toList]
  constructor
  · intro h
    refine ⟨fun i hi => (wf.isValidAt_iff (h.lt i hi)).mpr ⟨h.parent i hi, h.compound i hi,
      h.parallel i hi, h.history i hi⟩, ?_, h.lt⟩
    rintro rfl
    exact NodeSet.not_mem_empty 0 h.root
  · rintro ⟨hvalid, hne, hlt⟩
    have hat := fun i hi => (wf.isValidAt_iff (hlt i hi)).mp (hvalid i hi)
    obtain ⟨i, hi⟩ : ∃ i, i ∈ config := by
      by_contra hno
      exact hne (NodeSet.ext fun i => by simpa using fun hi => hno ⟨i, hi⟩)
    have hroot : ∀ i, i ∈ config → 0 ∈ config := by
      intro i
      induction i using Nat.strongRecOn with
      | _ i ih =>
          intro hi
          rcases Nat.eq_zero_or_pos i with rfl | hpos
          · exact hi
          · obtain ⟨p, hp, hlt'⟩ := wf.parent_pos i (hlt i hi) hpos
            exact ih p hlt' ((hat i hi).1 p hp)
    exact ⟨hlt, hroot i hi, fun i hi => (hat i hi).1, fun i hi => (hat i hi).2.1,
      fun i hi => (hat i hi).2.2.1, fun i hi => (hat i hi).2.2.2⟩

end WellFormed

end Statechart.Definition
