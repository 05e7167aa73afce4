import Mathlib.Data.List.Dedup
import Mathlib.Data.List.Perm.Basic
import Statechart.Proofs.Build

/-!
# The arena of states

A built definition keeps its tree in one array. `Arena` says that this array is a tree in document
order, that everything stored as a position stands in it, and that the three ways to look up the
transitions of a state share them out. `arena_of_accepted`: whatever a document is read and built
to is such an arena.

Two parts are not among what `WellFormed` collects. The depth of a state counts its proper ancestors
(`Assembled.depth_eq`), by the paths of the layout. The transitions of a state are the ones that
listen for a name, for a family of names or for no event (`transitions_perm`).
-/

namespace Statechart.Definition

variable {L : Type} {d : Definition L}

/-! ## Depths -/

namespace Assembled

variable {machine : String} {os : List Outline} {linked : List (StateNode L)}
  {ts : List (Transition L)} (h : Assembled machine os linked ts d)
include h

theorem depth_eq_path {i : Nat} (hi : i < os.length) : (d.node i).depth = os[i].path.length := by
  obtain ⟨l, hl, heq⟩ := h.node_spec hi
  rw [heq]
  exact hl.depth

/-- The root has depth zero, any other state is one deeper than its parent. -/
theorem depth_step {i : Nat} (hi : i < os.length) :
    ((d.node i).parent = none ∧ (d.node i).depth = 0) ∨
      ∃ p < os.length, (d.node i).parent = some p ∧ (d.node i).depth = (d.node p).depth + 1 := by
  have hparent : (d.node i).parent = os[i].parent := (h.resembles hi).parent
  rcases h.paths _ (List.getElem_mem hi) with ⟨hnone, hpath⟩ | ⟨o, ho, hsome, hlen⟩
  · left
    rw [hparent, h.depth_eq_path hi, hnone, hpath]
    exact ⟨rfl, rfl⟩
  · right
    obtain ⟨hp, heq⟩ := h.eq_getElem ho
    refine ⟨o.index, hp, hparent.trans hsome, ?_⟩
    rw [h.depth_eq_path hi, h.depth_eq_path hp, heq, hlen]

/-- The depth of a state is the number of its proper ancestors. -/
theorem depth_eq {i : Nat} (hi : i < os.length) :
    (d.node i).depth = (d.properAncestors i none).length := by
  have wf := h.wellFormed
  induction i using Nat.strongRecOn with
  | _ i ih =>
      rcases h.depth_step hi with ⟨hnone, hdepth⟩ | ⟨p, hp, hparent, hdepth⟩
      · rw [hdepth, WellFormed.properAncestors_of_none none hnone]
        rfl
      · rw [hdepth, ih p (wf.parent_lt hparent).1 hp, wf.properAncestors_cons none hparent,
          if_neg (by simp), List.length_cons]

/-! ## The transitions of a state -/

/-- The transitions of a state stand in the order of their numbers. -/
theorem sorted_transitions {i : Nat} (hi : i < os.length) :
    (d.node i).transitions.Pairwise (· < ·) := by
  obtain ⟨l, -, heq⟩ := h.node_spec hi
  have hindex : (number ts).map (·.index) = List.range ts.length := by
    simp [number, List.zipIdx_map_snd, List.range_eq_range', Function.comp_def]
  rw [heq]
  refine List.Pairwise.sublist (List.Sublist.map _ List.filter_sublist) ?_
  rw [hindex]
  exact List.pairwise_lt_range

theorem nodup_transitions {i : Nat} (hi : i < os.length) : (d.node i).transitions.Nodup :=
  (h.sorted_transitions hi).imp Nat.ne_of_lt

end Assembled

/-- The names that some transition of a state listens for. -/
def exactNames (d : Definition L) (i : Nat) : List String :=
  ((d.node i).transitions.filterMap fun t =>
    match (d.transition t).event with
    | .exact name => some name
    | _ => none).dedup

theorem mem_exactTransitions {i t : Nat} {name : String} :
    t ∈ d.exactTransitions i name ↔
      t ∈ (d.node i).transitions ∧ (d.transition t).event = .exact name := by
  simp [exactTransitions]

theorem mem_openTransitions {i t : Nat} :
    t ∈ d.openTransitions i ↔
      t ∈ (d.node i).transitions ∧ (d.transition t).event.isOpen = true := by
  rw [openTransitions, (List.mergeSort_perm _ _).mem_iff, List.mem_filter]

theorem mem_eventless {i t : Nat} :
    t ∈ d.eventless i ↔ t ∈ (d.node i).transitions ∧ (d.transition t).event = .eventless := by
  simp [eventless]

theorem mem_exactNames {i : Nat} {name : String} :
    name ∈ d.exactNames i ↔
      ∃ t ∈ (d.node i).transitions, (d.transition t).event = .exact name := by
  simp only [exactNames, List.mem_dedup, List.mem_filterMap]
  refine exists_congr fun t => and_congr_right fun _ => ?_
  cases (d.transition t).event <;> simp

/-- A transition listens for a name, for a family of names or for no event. -/
theorem mem_transitions_iff {i t : Nat} :
    t ∈ (d.node i).transitions ↔
      (∃ name ∈ d.exactNames i, t ∈ d.exactTransitions i name) ∨ t ∈ d.openTransitions i ∨
        t ∈ d.eventless i := by
  simp only [mem_exactTransitions, mem_openTransitions, mem_eventless, mem_exactNames]
  constructor
  · intro ht
    cases he : (d.transition t).event with
    | exact name => exact .inl ⟨name, ⟨t, ht, he⟩, ht, rfl⟩
    | family stem => exact .inr (.inl ⟨ht, rfl⟩)
    | wildcard => exact .inr (.inl ⟨ht, rfl⟩)
    | eventless => exact .inr (.inr ⟨ht, rfl⟩)
  · rintro (⟨_, _, ht, _⟩ | ⟨ht, _⟩ | ⟨ht, _⟩) <;> exact ht

/-- The lists of a state by name, for families and without event share out its transitions. -/
theorem transitions_perm {i : Nat} (h : (d.node i).transitions.Nodup) :
    ((d.exactNames i).flatMap (d.exactTransitions i) ++
      (d.openTransitions i ++ d.eventless i)).Perm (d.node i).transitions := by
  -- A transition has one descriptor, so the three lists share none and are together without
  -- repeats.
  have hexact : ((d.exactNames i).flatMap (d.exactTransitions i)).Nodup := by
    refine List.nodup_flatMap.mpr ⟨fun name _ => h.filter _, ?_⟩
    refine (List.nodup_dedup _).imp fun {name other} hne t ht ht' => hne ?_
    have hname := (mem_exactTransitions.mp ht).2
    rw [(mem_exactTransitions.mp ht').2, Descriptor.exact.injEq] at hname
    exact hname.symm
  have hopen : (d.openTransitions i).Nodup :=
    (List.mergeSort_perm _ _).nodup_iff.mpr (h.filter _)
  have hrest : (d.openTransitions i ++ d.eventless i).Nodup := by
    refine hopen.append (h.filter _) fun t ht ht' => ?_
    have hopen := (mem_openTransitions.mp ht).2
    rw [(mem_eventless.mp ht').2] at hopen
    cases hopen
  have hall := hexact.append hrest fun t ht ht' => by
    obtain ⟨name, -, ht⟩ := List.mem_flatMap.mp ht
    have hname := (mem_exactTransitions.mp ht).2
    rcases List.mem_append.mp ht' with ht' | ht'
    · have hopen := (mem_openTransitions.mp ht').2
      rw [hname] at hopen
      cases hopen
    · rw [(mem_eventless.mp ht').2] at hname
      cases hname
  refine (List.perm_ext_iff_of_nodup hall h).mpr fun t => ?_
  rw [mem_transitions_iff]
  simp only [List.mem_append, List.mem_flatMap]

/-! ## The arena -/

/-- A definition whose states and transitions are a tree in document order. -/
structure Arena (d : Definition L) : Prop where
  size_pos : 0 < d.nodes.size
  index_eq : ∀ i < d.nodes.size, (d.node i).index = i
  parent_eq_none_iff : ∀ i < d.nodes.size, (d.node i).parent = none ↔ i = 0
  parent_lt : ∀ i < d.nodes.size, ∀ p, (d.node i).parent = some p → p < i
  children_sorted : ∀ i < d.nodes.size, (d.node i).children.Pairwise (· < ·)
  mem_children_iff : ∀ i < d.nodes.size, ∀ j,
    j ∈ (d.node i).children ↔ j < d.nodes.size ∧ (d.node j).parent = some i
  keys_distinct : ∀ i < d.nodes.size, ((d.node i).children.map fun c => (d.node c).key).Nodup
  isDescendant_iff_mem : ∀ i j, d.isDescendant j i = true ↔ i ∈ d.properAncestors j none
  /-- A subtree is the run of positions from its root up to its end. -/
  subtree : ∀ i < d.nodes.size, i < (d.node i).subtreeEnd ∧
    (d.node i).subtreeEnd ≤ d.nodes.size ∧ ∀ j,
      (j = i ∨ i ∈ d.properAncestors j none) ↔ i ≤ j ∧ j < (d.node i).subtreeEnd
  depth_eq : ∀ i < d.nodes.size, (d.node i).depth = (d.properAncestors i none).length
  ids_distinct : (d.nodes.toList.map (·.id)).Nodup
  children_ne_nil_iff : ∀ i < d.nodes.size,
    (d.node i).children ≠ [] ↔ (d.node i).kind = .compound ∨ (d.node i).kind = .parallel
  initial : ∀ i < d.nodes.size, (d.node i).kind = .compound →
    ∃ c ∈ (d.node i).children, (d.node i).initial = some c ∧ (d.node c).kind ≠ .history
  transition_index : ∀ t < d.transitions.size, (d.transition t).index = t
  source_lt : ∀ t < d.transitions.size, (d.transition t).source < d.nodes.size
  target_lt : ∀ t < d.transitions.size, ∀ x ∈ (d.transition t).targets, x < d.nodes.size
  historyDefault_lt : ∀ i < d.nodes.size, ∀ x ∈ (d.node i).historyDefault, x < d.nodes.size
  /-- The transitions of a state are those that leave from it, each once. -/
  mem_transitions_iff : ∀ i < d.nodes.size, ∀ t,
    t ∈ (d.node i).transitions ↔ t < d.transitions.size ∧ (d.transition t).source = i
  transitions_nodup : ∀ i < d.nodes.size, (d.node i).transitions.Nodup
  transitions_perm : ∀ i < d.nodes.size,
    ((d.exactNames i).flatMap (d.exactTransitions i) ++
      (d.openTransitions i ++ d.eventless i)).Perm (d.node i).transitions

theorem WellFormed.keys_nodup (wf : d.WellFormed) {i : Nat} (hi : i < d.nodes.size) :
    ((d.node i).children.map fun c => (d.node c).key).Nodup :=
  List.Nodup.map_on (wf.children_key i hi)
    ((wf.children_sorted i hi).imp fun hlt => Nat.ne_of_lt hlt)

theorem WellFormed.ids_nodup (wf : d.WellFormed) : (d.nodes.toList.map (·.id)).Nodup := by
  have hnode : ∀ {i} (hi : i < d.nodes.size), d.nodes[i] = d.node i := fun hi => by
    simp [node, hi]
  refine List.nodup_iff_injective_getElem.mpr ?_
  rintro ⟨i, hi⟩ ⟨j, hj⟩ hid
  simp only [List.length_map, Array.length_toList] at hi hj
  simp only [List.getElem_map, Array.getElem_toList, hnode hi, hnode hj] at hid
  exact Fin.ext (wf.id_inj i hi j hj hid)

/-- A subtree is an interval: its states are those from its root up to its end. -/
theorem WellFormed.mem_subtree_iff (wf : d.WellFormed) {i : Nat} (hi : i < d.nodes.size) (j : Nat) :
    (j = i ∨ i ∈ d.properAncestors j none) ↔ i ≤ j ∧ j < (d.node i).subtreeEnd := by
  rw [wf.mem_properAncestors_none, wf.below_iff hi]
  have hend := wf.subtreeEnd i hi
  omega

theorem Assembled.arena {machine : String} {os : List Outline} {linked : List (StateNode L)}
    {ts : List (Transition L)} (h : Assembled machine os linked ts d) : d.Arena := by
  have wf := h.wellFormed
  have hout : ∀ {i}, i < d.nodes.size → i < os.length := fun hi => by rwa [← h.size_eq]
  exact {
    size_pos := wf.size_pos
    index_eq := wf.index_eq
    parent_eq_none_iff := fun i hi => by
      refine ⟨wf.parent_eq_none hi, ?_⟩
      rintro rfl
      exact wf.parent_zero
    parent_lt := fun _ _ _ hp => (wf.parent_lt hp).1
    children_sorted := wf.children_sorted
    mem_children_iff := wf.children_iff
    keys_distinct := fun _ hi => wf.keys_nodup hi
    isDescendant_iff_mem := fun _ _ => wf.mem_properAncestors_none.symm
    subtree := fun i hi =>
      ⟨(wf.subtreeEnd i hi).1, (wf.subtreeEnd i hi).2, wf.mem_subtree_iff hi⟩
    depth_eq := fun _ hi => h.depth_eq (hout hi)
    ids_distinct := wf.ids_nodup
    children_ne_nil_iff := wf.children_ne_nil
    initial := fun i hi hcomp => by
      obtain ⟨c, hc, hinitial, hhistory⟩ := wf.initial i hi hcomp
      exact ⟨c, hc, hinitial, by simpa [StateNode.isHistory] using hhistory⟩
    transition_index := wf.transition_index
    source_lt := wf.source_lt
    target_lt := wf.target_lt
    historyDefault_lt := fun i _ => wf.historyDefault_lt i
    mem_transitions_iff := wf.mem_transitions
    transitions_nodup := fun _ hi => h.nodup_transitions (hout hi)
    transitions_perm := fun _ hi => Definition.transitions_perm (h.nodup_transitions (hout hi)) }

/-- A definition is accepted that is built from a document, given as JSON or as its text. -/
def Accepted (d : Definition L) : Prop :=
  (∃ j, ofJson j = .ok d) ∨ ∃ text, ofText text = .ok d

/-- A text is read as the document it holds. -/
theorem Accepted.exists_json (h : d.Accepted) : ∃ j, ofJson j = .ok d := by
  rcases h with h | ⟨text, h⟩
  · exact h
  · unfold ofText MachineConfig.ofText? at h
    cases hj : Json.parse? text with
    | none =>
        rw [hj] at h
        cases h
    | some j =>
        rw [hj] at h
        exact ⟨j, h⟩

/-- What a document without a fault is built to is accepted. -/
theorem accepted_of_isOk {j : Json} (h : (ofJson (L := L) j).isOk = true) :
    ((ofJson j).toOption.getD default : Definition L).Accepted := .inl ⟨j, ok_of_isOk h⟩

theorem Accepted.assembled (h : d.Accepted) :
    ∃ machine os linked ts, Assembled machine os linked ts d := by
  obtain ⟨j, hj⟩ := h.exists_json
  obtain ⟨raw, hkeys, hbuild⟩ := exists_build hj
  exact assembled_of_build hkeys hbuild

theorem Accepted.wellFormed (h : d.Accepted) : d.WellFormed := by
  obtain ⟨j, hj⟩ := h.exists_json
  exact wellFormed_of_ofJson hj

/-- The states and transitions of every accepted definition are a tree in document order. -/
theorem arena_of_accepted (h : d.Accepted) : d.Arena := by
  obtain ⟨machine, os, linked, ts, hassembled⟩ := h.assembled
  exact hassembled.arena

/-- A door that falls wide open, and remembers how it stood. -/
def doorJson : Json :=
  let ajar : Json := .obj
    [("on", .obj [("PUSH", .str "wide"), ("PUSH.*", .str "wide"), ("*", .str "wide")]),
      ("always", .obj [("target", .str "wide")])]
  let back : Json := .obj [("type", .str "history"), ("target", .str "ajar")]
  .obj [("id", .str "door"), ("initial", .str "open"), ("states", .obj
    [("open", .obj [("initial", .str "ajar"), ("states", .obj
      [("ajar", ajar), ("wide", .obj []), ("back", back)])]),
      ("shut", .obj [("on", .obj [("PULL", .str "open.back")])])])]

/-- The door with nothing supplied. -/
def door : Definition Unit := (ofJson doorJson).toOption.getD default

set_option maxRecDepth 100000 in
theorem door_arena : door.nodes.size = 6 ∧ door.transitions.size = 5 ∧
    (door.node 2).transitions = [0, 1, 2, 3] ∧ door.Arena := by
  have hjson : (ofJson (L := Unit) doorJson).isOk = true := rfl
  exact ⟨rfl, rfl, rfl, arena_of_accepted (.inl ⟨doorJson, ok_of_isOk hjson⟩)⟩

end Statechart.Definition
