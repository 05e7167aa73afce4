import Statechart.Proofs.Tree
import Statechart.Selection

/-!
# Selected transitions

`Selection` says what can be relied on for the transitions that an event, or no event, enables: each
is what some active leaf picks on its path to the root, and no two of them leave a common state.
Both ways of selecting give such a list (`selection_of_select`, `selection_of_selectEventless`).
-/

namespace Statechart

theorem NodeSet.disjoint_iff {s t : NodeSet} :
    s.disjoint t = true ↔ ∀ i, ¬ (i ∈ s ∧ i ∈ t) := by
  have hbit : ∀ i, (s.bits &&& t.bits).testBit i = true ↔ i ∈ s ∧ i ∈ t := by
    intro i
    rw [Nat.testBit_and, Bool.and_eq_true, mem_def, mem_def]
  simp only [disjoint, beq_iff_eq]
  constructor
  · intro h i hi
    rw [← hbit, h] at hi
    simp at hi
  · intro h
    refine Nat.eq_of_testBit_eq fun i => ?_
    rw [Nat.zero_testBit, Bool.eq_false_iff]
    exact fun hi => h i ((hbit i).mp hi)

namespace Definition

variable {L : Type} (d : Definition L)

/-- What holds of selected transitions. -/
structure Selection (s : Situation) (ts : List Nat) : Prop where
  lt : ∀ t ∈ ts, t < d.transitions.size
  picked : ∃ pick : Nat → Option Nat, ∀ t ∈ ts, ∃ leaf ∈ d.leaves s.config,
    pick leaf = some t ∧ d.Within leaf (d.transition t).source
  nodup : ts.Nodup
  disjoint : ts.Pairwise fun t t' => ∀ i, ¬ (i ∈ d.exitSet s.config s.history (d.transition t) ∧
    i ∈ d.exitSet s.config s.history (d.transition t'))

variable {d} {s : Situation} {event : Event} {candidates : Nat → List Nat}

/-! ## Picks -/

theorem mem_of_firstEnabled {t : Nat} : ∀ {ts : List Nat},
    d.firstEnabled s event ts = .ok (some t) → t ∈ ts
  | [], h => by cases h
  | t' :: rest, h => by
      rw [firstEnabled] at h
      split at h
      · cases h
        exact List.mem_cons_self
      · exact List.mem_cons_of_mem _ (mem_of_firstEnabled h)
      · cases h

theorem mem_of_pickAlong {t : Nat} : ∀ {path : List Nat},
    d.pickAlong s event candidates path = .ok (some t) → ∃ node ∈ path, t ∈ candidates node
  | [], h => by cases h
  | node :: rest, h => by
      rw [pickAlong] at h
      split at h
      · rename_i hfirst
        cases h
        exact ⟨node, List.mem_cons_self, mem_of_firstEnabled hfirst⟩
      · obtain ⟨node', hnode, ht⟩ := mem_of_pickAlong h
        exact ⟨node', List.mem_cons_of_mem _ hnode, ht⟩
      · cases h

/-- What a leaf picks belongs to it or to a state above it. -/
theorem WellFormed.mem_of_pick (wf : d.WellFormed) {leaf t : Nat}
    (h : d.pick s event candidates leaf = .ok (some t)) :
    ∃ node, d.Within leaf node ∧ t ∈ candidates node := by
  obtain ⟨node, hnode, ht⟩ := mem_of_pickAlong h
  rcases List.mem_cons.mp hnode with rfl | hnode
  · exact ⟨node, .inl rfl, ht⟩
  · exact ⟨node, .inr (wf.mem_properAncestors_none.mp hnode), ht⟩

theorem mem_addNew {out : List Nat} {x y : Nat} : y ∈ addNew out x ↔ y ∈ out ∨ y = x := by
  unfold addNew
  split
  · rename_i h
    simp only [List.contains_iff_mem] at h
    exact ⟨.inl, fun h' => h'.elim (fun h => h) fun heq => heq ▸ h⟩
  · simp

theorem nodup_addNew {out : List Nat} {x : Nat} (h : out.Nodup) : (addNew out x).Nodup := by
  unfold addNew
  split
  · exact h
  · rename_i hx
    rw [List.nodup_append]
    refine ⟨h, by simp, ?_⟩
    intro a ha b hb heq
    rw [List.mem_singleton.mp hb] at heq
    subst heq
    exact hx (by simpa using ha)

theorem picks_spec : ∀ {leaves picked out : List Nat}, picked.Nodup →
    d.picks s event candidates picked leaves = .ok out → out.Nodup ∧
      ∀ t ∈ out, t ∈ picked ∨ ∃ leaf ∈ leaves, d.pick s event candidates leaf = .ok (some t)
  | [], picked, out, hnodup, h => by
      cases h
      exact ⟨hnodup, fun t ht => .inl ht⟩
  | leaf :: rest, picked, out, hnodup, h => by
      rw [picks] at h
      split at h
      · rename_i t hpick
        obtain ⟨hout, hmem⟩ := picks_spec (nodup_addNew hnodup) h
        refine ⟨hout, fun t' ht' => ?_⟩
        rcases hmem t' ht' with h | ⟨leaf', hleaf, h⟩
        · rcases mem_addNew.mp h with h | rfl
          · exact .inl h
          · exact .inr ⟨leaf, List.mem_cons_self, hpick⟩
        · exact .inr ⟨leaf', List.mem_cons_of_mem _ hleaf, h⟩
      · obtain ⟨hout, hmem⟩ := picks_spec hnodup h
        refine ⟨hout, fun t' ht' => (hmem t' ht').imp_right ?_⟩
        rintro ⟨leaf', hleaf, h⟩
        exact ⟨leaf', List.mem_cons_of_mem _ hleaf, h⟩
      · cases h

/-! ## Conflicts -/

/-- A list without conflicts, together with the states that its transitions leave. -/
structure Compatible (d : Definition L) (s : Situation) (kept : List (Nat × Configuration)) :
    Prop where
  exit : ∀ k ∈ kept, k.2 = d.exitSet s.config s.history (d.transition k.1)
  nodup : (kept.map Prod.fst).Nodup
  disjoint : kept.Pairwise fun k k' => ∀ i, ¬ (i ∈ k.2 ∧ i ∈ k'.2)

theorem Compatible.join {kept : List (Nat × Configuration)} (h : d.Compatible s kept) {t : Nat}
    (ht : t ∉ kept.map Prod.fst) : d.Compatible s (d.joinPicks s kept t) := by
  unfold joinPicks
  simp only
  split
  · refine ⟨?_, ?_, ?_⟩
    · intro k hk
      rcases List.mem_append.mp hk with hk | hk
      · exact h.exit k (List.mem_filter.mp hk).1
      · rw [List.mem_singleton.mp hk]
    · rw [List.map_append, List.nodup_append]
      refine ⟨h.nodup.sublist (List.filter_sublist.map _), by simp, ?_⟩
      intro a ha b hb heq
      simp only [List.map_cons, List.map_nil, List.mem_singleton] at hb
      rw [heq, hb] at ha
      exact ht ((List.filter_sublist.map _).subset ha)
    · rw [List.pairwise_append]
      refine ⟨h.disjoint.sublist List.filter_sublist, List.pairwise_singleton _ _, ?_⟩
      intro k hk k' hk' i hi
      rw [List.mem_singleton.mp hk'] at hi
      have hdisj := (List.mem_filter.mp hk).2
      simp only [Bool.not_not] at hdisj
      exact NodeSet.disjoint_iff.mp hdisj i ⟨hi.2, hi.1⟩
  · exact h

theorem joinPicks_subset {kept : List (Nat × Configuration)} {t u : Nat}
    (h : u ∈ (d.joinPicks s kept t).map Prod.fst) : u ∈ kept.map Prod.fst ∨ u = t := by
  unfold joinPicks at h
  simp only at h
  split at h
  · rw [List.map_append, List.mem_append] at h
    exact h.imp (fun h => (List.filter_sublist.map _).subset h) (by simp)
  · exact .inl h

theorem compatible_foldl : ∀ {picked : List Nat} {kept : List (Nat × Configuration)},
    d.Compatible s kept → picked.Nodup → (∀ t ∈ picked, t ∉ kept.map Prod.fst) →
      d.Compatible s (picked.foldl (d.joinPicks s) kept) ∧
        ∀ t ∈ (picked.foldl (d.joinPicks s) kept).map Prod.fst,
          t ∈ kept.map Prod.fst ∨ t ∈ picked
  | [], kept, h, _, _ => ⟨h, fun t ht => .inl ht⟩
  | t :: rest, kept, h, hnodup, hnew => by
      obtain ⟨hfirst, hrest⟩ := List.nodup_cons.mp hnodup
      obtain ⟨hcompat, hsub⟩ := compatible_foldl (h.join (hnew t List.mem_cons_self)) hrest (by
        intro u hu hmem
        rcases joinPicks_subset hmem with hmem | rfl
        · exact hnew u (List.mem_cons_of_mem _ hu) hmem
        · exact hfirst hu)
      refine ⟨hcompat, fun u hu => ?_⟩
      rcases hsub u hu with h | h
      · refine (joinPicks_subset h).imp_right fun heq => ?_
        rw [heq]
        exact List.mem_cons_self
      · exact .inr (List.mem_cons_of_mem _ h)

/-! ## Selection -/

namespace WellFormed

variable (wf : d.WellFormed)
include wf

theorem selection_of_selectFrom
    (hcand : ∀ node, ∀ t ∈ candidates node, t ∈ (d.node node).transitions) {ts : List Nat}
    (h : d.selectFrom s event candidates = .ok ts) : d.Selection s ts := by
  unfold selectFrom at h
  split at h
  · rename_i picked hpicks
    cases h
    obtain ⟨hnodup, hmem⟩ := picks_spec List.nodup_nil hpicks
    have hnone : d.Compatible s [] := ⟨by simp, .nil, .nil⟩
    obtain ⟨hcompat, hsub⟩ := compatible_foldl hnone hnodup (by simp)
    have hleaf : ∀ t ∈ d.removeConflicts s picked, ∃ leaf ∈ d.leaves s.config,
        d.pick s event candidates leaf = .ok (some t) := by
      intro t ht
      rcases hsub t ht with h | h
      · simp at h
      · rcases hmem t h with h | h
        · simp at h
        · exact h
    have hsource : ∀ {leaf t}, d.pick s event candidates leaf = .ok (some t) →
        t < d.transitions.size ∧ d.Within leaf (d.transition t).source := by
      intro leaf t hpick
      obtain ⟨node, hwithin, ht⟩ := wf.mem_of_pick hpick
      have hmem := hcand node t ht
      have hlt : node < d.nodes.size := by
        by_contra hge
        rw [node_of_size_le (by omega)] at hmem
        cases hmem
      obtain ⟨htlt, hnode⟩ := (wf.mem_transitions node hlt t).mp hmem
      exact ⟨htlt, by rwa [hnode]⟩
    -- each transition that is kept is witnessed by the leaf that picked it
    refine ⟨?_, ⟨fun leaf => match d.pick s event candidates leaf with
      | .ok found => found
      | .error _ => none, ?_⟩, hcompat.nodup, ?_⟩
    · intro t ht
      obtain ⟨leaf, _, hpick⟩ := hleaf t ht
      exact (hsource hpick).1
    · intro t ht
      obtain ⟨leaf, hmem, hpick⟩ := hleaf t ht
      exact ⟨leaf, hmem, by simp only [hpick], (hsource hpick).2⟩
    · refine List.pairwise_map.mpr (hcompat.disjoint.imp_of_mem fun {k k'} hk hk' h => ?_)
      rw [← hcompat.exit k hk, ← hcompat.exit k' hk']
      exact h
  · cases h

omit wf in
theorem mem_transitions_of_candidates {node t : Nat} {name : String}
    (h : t ∈ d.candidates node name) : t ∈ (d.node node).transitions := by
  unfold candidates at h
  split at h
  · have h' := (List.mem_filter.mp h).1
    rw [openTransitions, List.mem_mergeSort] at h'
    exact (List.mem_filter.mp h').1
  · exact (List.mem_filter.mp h).1

theorem selection_of_select {ts : List Nat} (h : d.select s event = .ok ts) :
    d.Selection s ts :=
  wf.selection_of_selectFrom (fun _ _ => mem_transitions_of_candidates) h

theorem selection_of_selectEventless {ts : List Nat} (h : d.selectEventless s event = .ok ts) :
    d.Selection s ts :=
  wf.selection_of_selectFrom (fun _ _ ht => (List.mem_filter.mp ht).1) h

end WellFormed

end Definition

end Statechart
