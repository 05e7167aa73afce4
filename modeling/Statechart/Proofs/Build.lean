import Mathlib.Data.List.Forall2
import Mathlib.Data.List.Nodup
import Statechart.Proofs.Layout
import Statechart.Proofs.Outcomes
import Statechart.Proofs.Tree

/-!
# Built definitions are well formed

`wellFormed_of_ofJson`: whatever a JSON document is built to satisfies `WellFormed`. The tree comes
from the layout, different keys from the reader, and kinds and ids from the checks. Linking keeps
all that (`Linked`) and only adds positions of states that exist.
-/

namespace Statechart

/-! ## Reading -/

namespace Json

theorem nodup_of_not_repeats {fields : List (String × Json)}
    (h : (fields.any fun field => repeats field.1 fields) = false) :
    (fields.map Prod.fst).Nodup := by
  rw [List.nodup_iff_count_le_one]
  intro key
  by_cases hmem : key ∈ fields.map Prod.fst
  · obtain ⟨field, hfield, rfl⟩ := List.mem_map.mp hmem
    have hno := List.any_eq_false.mp h field hfield
    simp only [repeats, decide_eq_true_eq, not_lt] at hno
    rw [List.count, List.countP_map, List.countP_eq_length_filter]
    refine Nat.le_trans (Nat.le_of_eq ?_) hno
    congr 1
  · rw [List.count_eq_zero_of_not_mem hmem]
    exact Nat.zero_le _

theorem readAll_spec {α : Type} {read : Json → Option α} :
    ∀ {fields : List (String × Json)} {xs : List (String × α)},
      entries?.readAll read fields = some xs →
        xs.map Prod.fst = fields.map Prod.fst ∧ ∀ x ∈ xs, ∃ j, read j = some x.2
  | [], xs, h => by
      simp only [entries?.readAll, Option.some.injEq] at h
      subst h
      simp
  | (key, j) :: rest, xs, h => by
      simp only [entries?.readAll, Option.bind_eq_bind, Option.bind_eq_some_iff,
        Option.some.injEq] at h
      obtain ⟨a, ha, others, hothers, rfl⟩ := h
      obtain ⟨hkeys, hread⟩ := readAll_spec hothers
      refine ⟨by simp [hkeys], fun x hx => ?_⟩
      rcases List.mem_cons.mp hx with rfl | hx
      · exact ⟨j, ha⟩
      · exact hread x hx

/-- The entries of an object have different keys. -/
theorem entries?_spec {α : Type} {read : Json → Option α} {j : Json} {xs : List (String × α)}
    (h : entries? read j = some xs) :
    (xs.map Prod.fst).Nodup ∧ ∀ x ∈ xs, ∃ j, read j = some x.2 := by
  unfold entries? at h
  split at h
  · split at h
    · cases h
    · rename_i fields hrepeats
      obtain ⟨hkeys, hread⟩ := readAll_spec h
      rw [hkeys]
      exact ⟨nodup_of_not_repeats (by simpa using hrepeats), hread⟩
  · cases h

theorem optional?_eq_some {α : Type} {read : Json → Option α} {field : Option Json}
    {x : Option α} (h : optional? read field = some x) :
    x = none ∨ ∃ j a, x = some a ∧ read j = some a := by
  unfold optional? at h
  split at h
  · exact .inl (Option.some.inj h).symm
  · exact .inl (Option.some.inj h).symm
  · rename_i j _
    obtain ⟨a, ha, rfl⟩ := Option.map_eq_some_iff.mp h
    exact .inr ⟨j, a, rfl, ha⟩

end Json

namespace StateConfig

theorem keysDistinctAll_iff (states : List (String × StateConfig)) :
    KeysDistinctAll states ↔ ∀ x ∈ states, KeysDistinct x.2 := by
  induction states with
  | nil => simp [KeysDistinctAll]
  | cons entry rest ih =>
      obtain ⟨key, state⟩ := entry
      simp [KeysDistinctAll, ih]

theorem keysDistinct_node {attributes : StateAttributes}
    {states : Option (List (String × StateConfig))} {read : Json → Option StateConfig}
    {field : Option Json} (hstates : Json.optional? (Json.entries? read) field = some states)
    (hread : ∀ j c, read j = some c → KeysDistinct c) : KeysDistinct (.node attributes states) := by
  rcases Json.optional?_eq_some hstates with rfl | ⟨j, xs, rfl, hxs⟩
  · exact trivial
  · obtain ⟨hnodup, hall⟩ := Json.entries?_spec hxs
    refine ⟨hnodup, (keysDistinctAll_iff xs).mpr fun x hx => ?_⟩
    obtain ⟨j', hj'⟩ := hall x hx
    exact hread j' x.2 hj'

theorem keysDistinct_of_read : ∀ {fuel : Nat} {j : Json} {c : StateConfig},
    read? fuel j = some c → KeysDistinct c
  | 0, _, _, h => by cases h
  | fuel + 1, j, c, h => by
      simp only [read?, Option.bind_eq_bind, Option.bind_eq_some_iff, Option.some.injEq] at h
      obtain ⟨_, _, attributes, _, states, hstates, rfl⟩ := h
      exact keysDistinct_node hstates fun _ _ => keysDistinct_of_read

end StateConfig

theorem MachineConfig.keysDistinct_of_ofJson {j : Json} {raw : MachineConfig}
    (h : MachineConfig.ofJson? j = some raw) : raw.root.KeysDistinct := by
  simp only [ofJson?, Option.bind_eq_bind, Option.bind_eq_some_iff, Option.some.injEq] at h
  obtain ⟨_, _, _, _, _, _, attributes, _, states, hstates, rfl⟩ := h
  exact StateConfig.keysDistinct_node hstates fun _ _ => StateConfig.keysDistinct_of_read

/-! ## Checks -/

namespace Outline

theorem check_spec {machine : String} : ∀ {used : List String} {os : List Outline},
    check machine used os = .ok () →
      (∀ o ∈ os, o.kindFault? = none) ∧ (os.map (Outline.id machine)).Nodup ∧
        ∀ o ∈ os, o.id machine ∉ used
  | _, [], _ => by simp
  | used, o :: rest, h => by
      simp only [check] at h
      split at h
      · cases h
      · rename_i hfault
        split at h
        · cases h
        · rename_i hused
          obtain ⟨hkinds, hnodup, hfresh⟩ := check_spec h
          refine ⟨?_, ?_, ?_⟩
          · intro x hx
            rcases List.mem_cons.mp hx with rfl | hx
            · exact hfault
            · exact hkinds x hx
          · rw [List.map_cons, List.nodup_cons]
            refine ⟨fun hmem => ?_, hnodup⟩
            obtain ⟨x, hx, hid⟩ := List.mem_map.mp hmem
            exact hfresh x hx (by rw [hid]; exact List.mem_cons_self)
          · intro x hx
            rcases List.mem_cons.mp hx with rfl | hx
            · exact hused
            · exact fun hmem => hfresh x hx (List.mem_cons_of_mem _ hmem)

/-- A state of a right kind has children exactly if it is compound or parallel. -/
theorem children_ne_nil_of_kindFault {o : Outline} (h : o.kindFault? = none) :
    o.children ≠ [] ↔ o.kind = .compound ∨ o.kind = .parallel := by
  unfold kindFault? at h
  cases hk : o.kind <;> cases hc : o.children <;> simp [hk, hc] at h ⊢

theorem root_kind_of_kindFault {o : Outline} (h : o.kindFault? = none) (hp : o.parent = none) :
    o.kind ≠ .history ∧ o.kind ≠ .final := by
  unfold kindFault? at h
  cases hk : o.kind <;> cases hc : o.children <;> simp [hk, hc, hp] at h ⊢

end Outline

/-! ## Linking -/

namespace Definition

variable {L : Type} {nodes : Array (StateNode L)}

/-- Every child that a state names exists. -/
def ChildrenExist (nodes : Array (StateNode L)) : Prop :=
  ∀ i, ∀ c ∈ (nodeAt nodes i).children, c < nodes.size

theorem findId?_lt {id : String} {x : Nat} (h : findId? nodes id = some x) : x < nodes.size := by
  obtain ⟨hlt, _⟩ := List.findIdx?_eq_some_iff_getElem.mp h
  simpa using hlt

theorem descend?_lt (hc : ChildrenExist nodes) : ∀ {keys : List String} {start x : Nat},
    start < nodes.size → descend? nodes start keys = some x → x < nodes.size
  | [], start, x, hs, h => by
      simp only [descend?, Option.some.injEq] at h
      omega
  | key :: rest, start, x, _, h => by
      simp only [descend?, Option.bind_eq_bind, Option.bind_eq_some_iff] at h
      obtain ⟨c, hfind, hrest⟩ := h
      exact descend?_lt hc (hc start c (List.mem_of_find?_eq_some hfind)) hrest

theorem resolveId?_lt (hc : ChildrenExist nodes) {text : String} {x : Nat}
    (h : resolveId? nodes text = some x) : x < nodes.size := by
  unfold resolveId? at h
  split at h
  · rename_i index hfind
    cases h
    exact findId?_lt hfind
  · obtain ⟨i, _, hi⟩ := List.exists_of_findSome?_eq_some h
    split at hi
    · cases hi
    · simp only [Option.bind_eq_bind, Option.bind_eq_some_iff] at hi
      obtain ⟨base, hbase, hdesc⟩ := hi
      exact descend?_lt hc (findId?_lt hbase) hdesc

/-- A target that is resolved exists. -/
theorem resolveTarget_lt (hc : ChildrenExist nodes) {source : Nat} (hs : source < nodes.size)
    (hp : ∀ p, (nodeAt nodes source).parent = some p → p < nodes.size) {target : String} {x : Nat}
    (h : resolveTarget nodes source target = .ok x) : x < nodes.size := by
  unfold resolveTarget at h
  simp only at h
  split at h
  · rename_i index hfound
    cases h
    split at hfound
    · exact resolveId?_lt hc hfound
    · split at hfound
      · exact descend?_lt hc hs hfound
      · refine descend?_lt hc ?_ hfound
        cases hpar : (nodeAt nodes source).parent with
        | none => exact hs
        | some p => exact hp p hpar
  · cases h

theorem resolveTargets_lt (hc : ChildrenExist nodes) {source : Nat} (hs : source < nodes.size)
    (hp : ∀ p, (nodeAt nodes source).parent = some p → p < nodes.size) :
    ∀ {targets : List String} {xs : List Nat}, resolveTargets nodes source targets = .ok xs →
      ∀ x ∈ xs, x < nodes.size
  | [], xs, h => by
      cases h
      simp
  | target :: rest, xs, h => by
      simp only [resolveTargets, Except.bind_eq_ok] at h
      obtain ⟨index, hindex, others, hothers, hxs⟩ := h
      cases hxs
      intro x hx
      rcases List.mem_cons.mp hx with rfl | hx
      · exact resolveTarget_lt hc hs hp hindex
      · exact resolveTargets_lt hc hs hp hothers x hx

/-- What linking makes sure of about a transition. -/
structure LinkedTransition (size source : Nat) (t : Transition L) : Prop where
  source_eq : t.source = source
  target_lt : ∀ x ∈ t.targets, x < size
  forbidden_targets : t.forbidden = true → t.targets = []

section

variable (hc : ChildrenExist nodes) {source : Nat} (hs : source < nodes.size)
  (hp : ∀ p, (nodeAt nodes source).parent = some p → p < nodes.size)
include hc hs hp

theorem linkTransitions_spec {event : Descriptor} {delay : Option Delay} :
    ∀ {configs : List TransitionConfig} {ts : List (Transition L)},
      linkTransitions nodes source event delay configs = .ok ts →
        ∀ t ∈ ts, LinkedTransition nodes.size source t
  | [], ts, h => by
      cases h
      simp
  | config :: rest, ts, h => by
      simp only [linkTransitions, linkTransition, Except.bind_eq_ok] at h
      obtain ⟨first, ⟨targets, htargets, guard, _, actions, _, hfirst⟩, others, hothers, hts⟩ := h
      cases hfirst
      cases hts
      intro t ht
      rcases List.mem_cons.mp ht with rfl | ht
      · exact ⟨rfl, resolveTargets_lt hc hs hp htargets, by simp⟩
      · exact linkTransitions_spec hothers t ht

theorem linkOn_spec : ∀ {entries : List (String × Option (List TransitionConfig))}
    {ts : List (Transition L)}, linkOn nodes source entries = .ok ts →
      ∀ t ∈ ts, LinkedTransition nodes.size source t
  | [], ts, h => by
      cases h
      simp
  | (event, none) :: rest, ts, h => by
      simp only [linkOn, Except.bind_eq_ok] at h
      obtain ⟨others, hothers, hts⟩ := h
      cases hts
      intro t ht
      rcases List.mem_cons.mp ht with rfl | ht
      · exact ⟨rfl, by simp [forbiddenTransition], fun _ => rfl⟩
      · exact linkOn_spec hothers t ht
  | (event, some configs) :: rest, ts, h => by
      simp only [linkOn, Except.bind_eq_ok] at h
      obtain ⟨first, hfirst, others, hothers, hts⟩ := h
      cases hts
      intro t ht
      rcases List.mem_append.mp ht with ht | ht
      · exact linkTransitions_spec hc hs hp hfirst t ht
      · exact linkOn_spec hothers t ht

theorem linkAfter_spec {id : String} : ∀ {entries : List (String × List TransitionConfig)}
    {ts : List (Transition L)}, linkAfter nodes source id entries = .ok ts →
      ∀ t ∈ ts, LinkedTransition nodes.size source t
  | [], ts, h => by
      cases h
      simp
  | (key, configs) :: rest, ts, h => by
      simp only [linkAfter, Except.bind_eq_ok] at h
      obtain ⟨first, hfirst, others, hothers, hts⟩ := h
      cases hts
      intro t ht
      rcases List.mem_append.mp ht with ht | ht
      · exact linkTransitions_spec hc hs hp hfirst t ht
      · exact linkAfter_spec hothers t ht

theorem linkInvoke_spec {id : String} : ∀ {invokes : List InvokeConfig} {place : Nat}
    {ts : List (Transition L)}, linkInvoke nodes source id place invokes = .ok ts →
      ∀ t ∈ ts, LinkedTransition nodes.size source t
  | [], _, ts, h => by
      cases h
      simp
  | i :: rest, place, ts, h => by
      simp only [linkInvoke, Except.bind_eq_ok] at h
      obtain ⟨done, hdone, failed, hfailed, others, hothers, hts⟩ := h
      cases hts
      intro t ht
      rcases List.mem_append.mp ht with ht | ht
      · rcases List.mem_append.mp ht with ht | ht
        · exact linkTransitions_spec hc hs hp hdone t ht
        · exact linkTransitions_spec hc hs hp hfailed t ht
      · exact linkInvoke_spec hothers t ht

end

/-- How a linked state agrees with the one before linking. -/
structure Linked (nodes : Array (StateNode L)) (n linked : StateNode L) : Prop where
  index : linked.index = n.index
  id : linked.id = n.id
  key : linked.key = n.key
  kind : linked.kind = n.kind
  parent : linked.parent = n.parent
  children : linked.children = n.children
  subtreeEnd : linked.subtreeEnd = n.subtreeEnd
  depth : linked.depth = n.depth
  history : linked.history = n.history
  initial : n.kind = .compound →
    ∃ c ∈ n.children, linked.initial = some c ∧ (nodeAt nodes c).isHistory = false
  initial_none : n.kind ≠ .compound → linked.initial = none
  historyDefault_lt : ∀ x ∈ linked.historyDefault, x < nodes.size

theorem resolveInitial_spec {n : StateNode L} {a : StateAttributes} {c : Nat}
    (h : resolveInitial nodes n a = .ok c) :
    c ∈ n.children ∧ (nodeAt nodes c).isHistory = false := by
  unfold resolveInitial at h
  split at h
  · cases h
  · simp only at h
    split at h
    · rename_i found hfind
      cases h
      have hprop := List.find?_some hfind
      simp only [Bool.and_eq_true, Bool.not_eq_true'] at hprop
      exact ⟨List.mem_of_find?_eq_some hfind, hprop.2⟩
    · cases h

theorem initialOf_spec {n : StateNode L} {a : StateAttributes} {initial : Option Nat}
    (h : initialOf nodes n a = .ok initial) :
    (n.kind = .compound → ∃ c, resolveInitial nodes n a = .ok c ∧ initial = some c) ∧
      (n.kind ≠ .compound → initial = none) := by
  unfold initialOf at h
  split at h
  · rename_i hcomp
    refine ⟨fun _ => ?_, fun hne => absurd hcomp hne⟩
    cases hr : resolveInitial nodes n a with
    | error e => simp [hr] at h
    | ok c =>
        simp only [hr, Except.map_ok, Except.ok.injEq] at h
        exact ⟨c, rfl, h.symm⟩
  · cases h
    exact ⟨fun hcomp => absurd hcomp ‹_›, fun _ => rfl⟩

theorem historyDefaultOf_lt (hc : ChildrenExist nodes) {n : StateNode L} {a : StateAttributes}
    (hs : n.index < nodes.size)
    (hp : ∀ p, (nodeAt nodes n.index).parent = some p → p < nodes.size) {xs : List Nat}
    (h : historyDefaultOf nodes n a = .ok xs) : ∀ x ∈ xs, x < nodes.size := by
  unfold historyDefaultOf at h
  split at h
  · exact resolveTargets_lt hc hs hp h
  · cases h
    simp

theorem linkNode_spec (hc : ChildrenExist nodes) {n : StateNode L} {a : StateAttributes}
    (hs : n.index < nodes.size)
    (hp : ∀ p, (nodeAt nodes n.index).parent = some p → p < nodes.size)
    {linked : StateNode L} {ts : List (Transition L)} (h : linkNode nodes n a = .ok (linked, ts)) :
    Linked nodes n linked ∧ ∀ t ∈ ts, LinkedTransition nodes.size n.index t := by
  simp only [linkNode, Except.bind_eq_ok] at h
  obtain ⟨initial, hinitial, default, hdefault, entry, _, exit, _, on, hon, after, hafter,
    always, halways, onDone, honDone, invoke, hinvoke, heq⟩ := h
  cases heq
  refine ⟨⟨rfl, rfl, rfl, rfl, rfl, rfl, rfl, rfl, rfl, ?_, ?_, ?_⟩, ?_⟩
  · intro hcomp
    obtain ⟨c, hc, rfl⟩ := (initialOf_spec hinitial).1 hcomp
    exact ⟨c, (resolveInitial_spec hc).1, rfl, (resolveInitial_spec hc).2⟩
  · exact (initialOf_spec hinitial).2
  · exact historyDefaultOf_lt hc hs hp hdefault
  · intro t ht
    simp only [List.mem_append] at ht
    rcases ht with (((ht | ht) | ht) | ht) | ht
    · exact linkOn_spec hc hs hp hon t ht
    · exact linkAfter_spec hc hs hp hafter t ht
    · exact linkTransitions_spec hc hs hp halways t ht
    · exact linkTransitions_spec hc hs hp honDone t ht
    · exact linkInvoke_spec hc hs hp hinvoke t ht

theorem linkAll_spec (hc : ChildrenExist nodes)
    (hp : ∀ i p, (nodeAt nodes i).parent = some p → p < nodes.size) :
    ∀ {pairs : List (StateNode L × StateAttributes)} {linked : List (StateNode L)}
      {ts : List (Transition L)}, (∀ x ∈ pairs, x.1.index < nodes.size) →
        linkAll nodes pairs = .ok (linked, ts) →
          List.Forall₂ (Linked nodes) (pairs.map Prod.fst) linked ∧
            ∀ t ∈ ts, ∃ source < nodes.size, LinkedTransition nodes.size source t
  | [], linked, ts, _, h => by
      cases h
      exact ⟨.nil, by simp⟩
  | (n, a) :: rest, linked, ts, hlt, h => by
      simp only [linkAll, Except.bind_eq_ok] at h
      obtain ⟨⟨first, ts₁⟩, hfirst, ⟨others, ts₂⟩, hothers, heq⟩ := h
      cases heq
      have hn : n.index < nodes.size := hlt (n, a) List.mem_cons_self
      obtain ⟨hnode, hts⟩ := linkNode_spec hc hn (hp n.index) hfirst
      obtain ⟨hrest, hmore⟩ :=
        linkAll_spec hc hp (fun x hx => hlt x (List.mem_cons_of_mem _ hx)) hothers
      refine ⟨.cons hnode hrest, fun t ht => ?_⟩
      rcases List.mem_append.mp ht with ht | ht
      · exact ⟨n.index, hn, hts t ht⟩
      · exact hmore t ht

/-! ## The built definition -/

/-- What a state keeps from its outline. -/
structure Resembles (machine : String) (o : Outline) (n : StateNode L) : Prop where
  id : n.id = o.id machine
  key : n.key = o.key
  kind : n.kind = o.kind
  parent : n.parent = o.parent
  children : n.children = o.children
  subtreeEnd : n.subtreeEnd = o.subtreeEnd
  history : n.history.isSome = true ↔ o.kind = .history

/-- A definition put together from linked states, which come from a layout. -/
structure Assembled (machine : String) (os : List Outline) (linked : List (StateNode L))
    (ts : List (Transition L)) (d : Definition L) : Prop where
  spans : Spans 0 os.length none os
  head : ∃ o rest, os = o :: rest ∧ o.parent = none ∧ o.subtreeEnd = os.length
  keys : ∀ o ∈ os, ∀ o' ∈ os, ∀ p, o.parent = some p → o'.parent = some p → o.key = o'.key →
    o.index = o'.index
  paths : ∀ o ∈ os, (o.parent = none ∧ o.path = []) ∨
    ∃ p ∈ os, o.parent = some p.index ∧ o.path.length = p.path.length + 1
  kinds : ∀ o ∈ os, o.kindFault? = none
  ids : (os.map (Outline.id machine)).Nodup
  agrees : List.Forall₂ (Linked (os.map (Outline.toNode machine)).toArray)
    (os.map (Outline.toNode machine)) linked
  transitions : ∀ t ∈ ts, ∃ source < os.length, LinkedTransition os.length source t
  nodes_eq : d.nodes = (linked.map fun n =>
    { n with transitions := ((number ts).filter (·.source == n.index)).map (·.index) }).toArray
  transitions_eq : d.transitions = (number ts).toArray

namespace Assembled

variable {machine : String} {os : List Outline} {linked : List (StateNode L)}
  {ts : List (Transition L)} {d : Definition L} (h : Assembled machine os linked ts d)
include h

theorem size_eq : d.nodes.size = os.length := by
  rw [h.nodes_eq]
  simpa using h.agrees.length_eq.symm

theorem index_getElem {i : Nat} (hi : i < os.length) : os[i].index = i := by
  have hmap : (os.map Outline.index)[i]? = some i := by
    rw [h.spans.index, List.getElem?_range' (by omega)]
    simp
  simpa [hi] using hmap

/-- The outline of a position. -/
theorem eq_getElem {o : Outline} (ho : o ∈ os) : ∃ hi : o.index < os.length, os[o.index] = o := by
  obtain ⟨i, hi, rfl⟩ := List.getElem_of_mem ho
  have hindex := h.index_getElem hi
  exact ⟨by omega, by simp only [hindex]⟩

/-- A state of the definition is a linked outline with its transitions. -/
theorem node_spec {i : Nat} (hi : i < os.length) :
    ∃ l, Linked (os.map (Outline.toNode machine)).toArray (os[i].toNode machine) l ∧ d.node i =
      { l with transitions := ((number ts).filter (·.source == i)).map (·.index) } := by
  have hlen := h.agrees.length_eq
  have hi' : i < linked.length := by simpa [← hlen] using hi
  have hl : Linked (os.map (Outline.toNode machine)).toArray (os[i].toNode machine) linked[i] := by
    simpa using h.agrees.get (by simpa using hi) hi'
  refine ⟨linked[i], hl, ?_⟩
  have hindex : linked[i].index = i := hl.index.trans (h.index_getElem hi)
  simp [node, h.nodes_eq, hi', hindex]

omit h in
theorem nodeAt_eq {i : Nat} (hi : i < os.length) :
    nodeAt (os.map (Outline.toNode machine) : List (StateNode L)).toArray i =
      os[i].toNode machine := by
  simp [nodeAt, hi]

theorem node_index {i : Nat} (hi : i < os.length) : (d.node i).index = i := by
  obtain ⟨l, hl, heq⟩ := h.node_spec hi
  rw [heq]
  exact hl.index.trans (h.index_getElem hi)

theorem resembles {i : Nat} (hi : i < os.length) : Resembles machine os[i] (d.node i) := by
  obtain ⟨l, hl, heq⟩ := h.node_spec hi
  rw [heq]
  refine ⟨hl.id, hl.key, hl.kind, hl.parent, hl.children, hl.subtreeEnd, ?_⟩
  have hhist : l.history = _ := hl.history
  rw [hhist]
  simp [Outline.toNode]

theorem transition_eq {t : Nat} (ht : t < d.transitions.size) :
    ∃ hlt : t < ts.length, d.transition t = { ts[t] with index := t } := by
  have hlt : t < ts.length := by simpa [h.transitions_eq, number] using ht
  refine ⟨hlt, ?_⟩
  simp [transition, h.transitions_eq, number, hlt]

theorem parent_pos {i : Nat} (hi : i < os.length) (hpos : 0 < i) :
    ∃ p, os[i].parent = some p ∧ p < i := by
  obtain ⟨o, rest, hos, -, hend⟩ := h.head
  have ho : o ∈ os := by
    rw [hos]
    exact List.mem_cons_self
  have hzero : o.index = 0 := by
    have := h.index_getElem (i := 0) (by omega)
    simpa [hos] using this
  have hindex := h.index_getElem hi
  obtain ⟨p, hp, -, -⟩ :=
    (h.spans.nested o ho os[i] (List.getElem_mem hi) (by omega)).mp (by omega)
  rcases h.spans.parent_cases (List.getElem_mem hi) hp with htop | ⟨-, hlt⟩
  · cases htop
  · exact ⟨p, hp, by omega⟩

theorem mem_children {i c : Nat} (hi : i < os.length) :
    c ∈ os[i].children ↔ ∃ hc : c < os.length, os[c].parent = some i := by
  rw [h.spans.children _ (List.getElem_mem hi), h.index_getElem hi]
  constructor
  · rintro ⟨o, ho, rfl, hp⟩
    obtain ⟨hc, heq⟩ := h.eq_getElem ho
    exact ⟨hc, by rw [heq]; exact hp⟩
  · rintro ⟨hc, hp⟩
    exact ⟨os[c], List.getElem_mem hc, h.index_getElem hc, hp⟩

theorem transition_spec {t : Nat} (ht : t < d.transitions.size) :
    (d.transition t).index = t ∧ (d.transition t).source < os.length ∧
      (∀ x ∈ (d.transition t).targets, x < os.length) ∧
      ((d.transition t).forbidden = true → (d.transition t).targets = []) := by
  obtain ⟨hlt, heq⟩ := h.transition_eq ht
  obtain ⟨source, hsource, hlinked⟩ := h.transitions ts[t] (List.getElem_mem hlt)
  rw [heq]
  exact ⟨rfl, by rw [hlinked.source_eq]; exact hsource, hlinked.target_lt,
    hlinked.forbidden_targets⟩

theorem mem_transitions {i t : Nat} (hi : i < os.length) :
    t ∈ (d.node i).transitions ↔ t < d.transitions.size ∧ (d.transition t).source = i := by
  obtain ⟨l, -, heq⟩ := h.node_spec hi
  have hlen : (number ts).length = d.transitions.size := by simp [h.transitions_eq]
  rw [heq]
  simp only [List.mem_map, List.mem_filter, beq_iff_eq]
  constructor
  · rintro ⟨x, ⟨hx, hsource⟩, rfl⟩
    obtain ⟨k, hk, rfl⟩ := List.getElem_of_mem hx
    have hindex : (number ts)[k].index = k := by simp [number]
    rw [hindex]
    refine ⟨by omega, ?_⟩
    simpa [transition, h.transitions_eq, hk] using hsource
  · rintro ⟨ht, hsource⟩
    refine ⟨d.transition t, ⟨?_, hsource⟩, (h.transition_spec ht).1⟩
    have hlt : t < (number ts).length := by omega
    have htrans : d.transition t = (number ts)[t] := by
      simp [transition, h.transitions_eq, hlt]
    rw [htrans]
    exact List.getElem_mem hlt

theorem subtree {i j : Nat} (hi : i < os.length) (hj : j < os.length) (hlt : i < j) :
    j < os[i].subtreeEnd ↔ ∃ p, os[j].parent = some p ∧ i ≤ p ∧ p < os[i].subtreeEnd := by
  have hi' := h.index_getElem hi
  have hj' := h.index_getElem hj
  have hnested := h.spans.nested _ (List.getElem_mem hi) _ (List.getElem_mem hj) (by omega)
  rwa [hi', hj'] at hnested

/-- Siblings with one key are one state. -/
theorem children_key {i c c' : Nat} (hi : i < os.length) (hc : c ∈ os[i].children)
    (hc' : c' ∈ os[i].children) (hkey : (d.node c).key = (d.node c').key) : c = c' := by
  obtain ⟨hlt, hp⟩ := (h.mem_children hi).mp hc
  obtain ⟨hlt', hp'⟩ := (h.mem_children hi).mp hc'
  rw [(h.resembles hlt).key, (h.resembles hlt').key] at hkey
  have hindex := h.keys _ (List.getElem_mem hlt) _ (List.getElem_mem hlt') i hp hp' hkey
  rwa [h.index_getElem hlt, h.index_getElem hlt'] at hindex

/-- The initial state of a compound one is a child of it, and no history state. -/
theorem initial {i : Nat} (hi : i < os.length) (hcomp : os[i].kind = .compound) :
    ∃ c ∈ os[i].children, (d.node i).initial = some c ∧ (d.node c).isHistory = false := by
  obtain ⟨l, hl, heq⟩ := h.node_spec hi
  obtain ⟨c, hc, hinitial, hhistory⟩ := hl.initial hcomp
  have hlt : c < os.length := ((h.mem_children hi).mp hc).1
  refine ⟨c, hc, by rw [heq]; exact hinitial, ?_⟩
  rw [nodeAt_eq hlt] at hhistory
  rw [StateNode.isHistory, (h.resembles hlt).kind]
  exact hhistory

theorem initial_none {i : Nat} (hi : i < os.length) (hcomp : os[i].kind ≠ .compound) :
    (d.node i).initial = none := by
  obtain ⟨l, hl, heq⟩ := h.node_spec hi
  rw [heq]
  exact hl.initial_none hcomp

theorem historyDefault_lt {i x : Nat} (hi : i < os.length) (hx : x ∈ (d.node i).historyDefault) :
    x < os.length := by
  obtain ⟨l, hl, heq⟩ := h.node_spec hi
  rw [heq] at hx
  simpa using hl.historyDefault_lt x hx

theorem id_inj {i j : Nat} (hi : i < os.length) (hj : j < os.length)
    (hid : (d.node i).id = (d.node j).id) : i = j := by
  rw [(h.resembles hi).id, (h.resembles hj).id] at hid
  have hi' : i < (os.map (Outline.id machine)).length := by simpa using hi
  have hj' : j < (os.map (Outline.id machine)).length := by simpa using hj
  exact (@List.Nodup.getElem_inj_iff _ _ h.ids i hi' j hj').mp (by simpa using hid)

theorem wellFormed : d.WellFormed := by
  have hsize := h.size_eq
  have hout : ∀ {i}, i < d.nodes.size → i < os.length := fun hi => by omega
  obtain ⟨root, rest, hos, hroot, -⟩ := h.head
  have hpos : 0 < os.length := by simp [hos]
  have hzero : os[0] = root := by simp [hos]
  -- a linked state resembles its outline, so each clause is one about the layout
  exact {
    size_pos := by omega
    index_eq := fun i hi => h.node_index (hout hi)
    parent_zero := by rw [(h.resembles hpos).parent, hzero, hroot]
    parent_pos := fun i hi hlt => by
      rw [(h.resembles (hout hi)).parent]
      exact h.parent_pos (hout hi) hlt
    subtreeEnd := fun i hi => by
      have hspan := h.spans.subtree _ (List.getElem_mem (hout hi))
      rw [(h.resembles (hout hi)).subtreeEnd, hsize]
      rwa [h.index_getElem (hout hi)] at hspan
    subtree := fun i hi j hj hlt => by
      rw [(h.resembles (hout hi)).subtreeEnd, (h.resembles (hout hj)).parent]
      exact h.subtree (hout hi) (hout hj) hlt
    children_iff := fun i hi c => by
      rw [(h.resembles (hout hi)).children, h.mem_children (hout hi), hsize]
      constructor
      · rintro ⟨hc, hp⟩
        exact ⟨hc, by rw [(h.resembles hc).parent, hp]⟩
      · rintro ⟨hc, hp⟩
        exact ⟨hc, by rw [← hp, (h.resembles hc).parent]⟩
    children_sorted := fun i hi => by
      rw [(h.resembles (hout hi)).children]
      exact h.spans.sorted _ (List.getElem_mem _)
    children_key := fun i hi c hc c' hc' => by
      rw [(h.resembles (hout hi)).children] at hc hc'
      exact h.children_key (hout hi) hc hc'
    children_ne_nil := fun i hi => by
      rw [(h.resembles (hout hi)).children, (h.resembles (hout hi)).kind]
      exact Outline.children_ne_nil_of_kindFault (h.kinds _ (List.getElem_mem _))
    initial := fun i hi hcomp => by
      rw [(h.resembles (hout hi)).kind] at hcomp
      rw [(h.resembles (hout hi)).children]
      exact h.initial (hout hi) hcomp
    initial_none := fun i hne => by
      by_cases hi : i < os.length
      · exact h.initial_none hi ((h.resembles hi).kind ▸ hne)
      · rw [node_of_size_le (by omega)]
        rfl
    root_kind := by
      rw [(h.resembles hpos).kind, hzero]
      exact Outline.root_kind_of_kindFault (h.kinds root (by simp [hos])) hroot
    history_isSome := fun i => by
      by_cases hi : i < os.length
      · rw [Bool.eq_iff_iff, (h.resembles hi).history, StateNode.isHistory, (h.resembles hi).kind,
          beq_iff_eq]
      · rw [node_of_size_le (by omega)]
        rfl
    historyDefault_lt := fun i x hx => by
      by_cases hi : i < os.length
      · rw [hsize]
        exact h.historyDefault_lt hi hx
      · rw [node_of_size_le (by omega)] at hx
        exact absurd hx List.not_mem_nil
    id_inj := fun i hi j hj => h.id_inj (hout hi) (hout hj)
    mem_transitions := fun i hi t => h.mem_transitions (hout hi)
    transition_index := fun t ht => (h.transition_spec ht).1
    source_lt := fun t ht => by
      rw [hsize]
      exact (h.transition_spec ht).2.1
    target_lt := fun t ht => by
      rw [hsize]
      exact (h.transition_spec ht).2.2.1
    forbidden_targets := fun t ht => (h.transition_spec ht).2.2.2 }

end Assembled

/-! ## Outlines before they are linked -/

section

variable (L) (machine : String) {os : List Outline}

/-- At a position stands an outline, or nothing. -/
theorem nodeAt_outlines (os : List Outline) (i : Nat) :
    nodeAt (os.map (Outline.toNode (L := L) machine)).toArray i = default ∨
      ∃ o ∈ os, nodeAt (os.map (Outline.toNode (L := L) machine)).toArray i =
        o.toNode machine := by
  by_cases hi : i < os.length
  · exact .inr ⟨os[i], List.getElem_mem hi, Assembled.nodeAt_eq hi⟩
  · exact .inl (by simp [nodeAt, hi])

theorem childrenExist_outlines (hspans : Spans 0 os.length none os) :
    ChildrenExist (os.map (Outline.toNode (L := L) machine)).toArray := by
  intro i c hc
  rcases nodeAt_outlines L machine os i with hi | ⟨o, ho, hi⟩
  · rw [hi] at hc
    exact absurd hc List.not_mem_nil
  · rw [hi] at hc
    obtain ⟨o', ho', rfl, -⟩ := (hspans.children o ho c).mp hc
    simpa using (hspans.bounds ho').2

theorem parent_lt_outlines (hspans : Spans 0 os.length none os) (i p : Nat)
    (hp : (nodeAt (os.map (Outline.toNode (L := L) machine)).toArray i).parent = some p) :
    p < (os.map (Outline.toNode (L := L) machine)).toArray.size := by
  rcases nodeAt_outlines L machine os i with hi | ⟨o, ho, hi⟩
  · rw [hi] at hp
    cases hp
  · rw [hi] at hp
    have hbounds := hspans.bounds ho
    rcases hspans.parent_cases ho hp with htop | ⟨-, hlt⟩
    · cases htop
    · simp only [List.size_toArray, List.length_map]
      omega

theorem map_fst_outlines (os : List Outline) :
    ((os.map (Outline.toNode (L := L) machine)).zip (os.map (·.attributes))).map Prod.fst =
      os.map (Outline.toNode machine) := by
  rw [List.map_fst_zip]
  simp

theorem index_lt_outlines (hspans : Spans 0 os.length none os) :
    ∀ x ∈ (os.map (Outline.toNode (L := L) machine)).zip (os.map (·.attributes)),
      x.1.index < (os.map (Outline.toNode (L := L) machine)).toArray.size := by
  intro x hx
  have hmem : x.1 ∈ os.map (Outline.toNode machine) := by
    rw [← map_fst_outlines]
    exact List.mem_map_of_mem hx
  obtain ⟨o, ho, hx⟩ := List.mem_map.mp hmem
  rw [← hx]
  simpa [Outline.toNode] using (hspans.bounds ho).2

end

/-- The layout of a tree of states spans all positions from the first one on. -/
theorem spans_root (machine : String) (root : StateConfig) :
    Spans 0 (root.layout 0 machine none []).length none (root.layout 0 machine none []) ∧
      0 + root.size = (root.layout 0 machine none []).length := by
  have hspans := StateConfig.spans_layout 0 machine none [] (by simp) root
  have hlen : 0 + root.size = (root.layout 0 machine none []).length := by
    have hindex := congrArg List.length hspans.index
    simpa using hindex.symm
  rw [hlen] at hspans
  exact ⟨hspans, hlen⟩

/-- Building assembles. -/
theorem assembled_of_build {raw : MachineConfig} (hkeys : raw.root.KeysDistinct)
    {d : Definition L} (h : build raw = .ok d) :
    ∃ machine os linked ts, Assembled machine os linked ts d := by
  simp only [build, Except.bind_eq_ok] at h
  obtain ⟨_, hcheck, ⟨linked, ts⟩, hlink, heq⟩ := h
  cases heq
  generalize raw.root.attributes.id.getD defaultId = machine at hcheck hlink ⊢
  obtain ⟨hspans, hlen⟩ := spans_root machine raw.root
  obtain ⟨root, rest, hos, -, hroot, -, hend⟩ :=
    StateConfig.layout_head 0 machine none [] raw.root
  have hdistinct := StateConfig.layout_key 0 machine none [] (by simp) raw.root hkeys
  have hpaths := StateConfig.layout_path 0 machine none [] raw.root
  -- from here on only these facts about the layout matter
  generalize raw.root.layout 0 machine none [] = os
    at hcheck hlink hspans hlen hos hdistinct hpaths ⊢
  rw [hlen] at hend
  obtain ⟨hkinds, hids, -⟩ := Outline.check_spec hcheck
  obtain ⟨hagrees, htransitions⟩ := linkAll_spec (childrenExist_outlines L machine hspans)
    (parent_lt_outlines L machine hspans) (index_lt_outlines L machine hspans) hlink
  rw [map_fst_outlines] at hagrees
  refine ⟨machine, os, linked, ts, ?_⟩
  exact {
    spans := hspans
    head := ⟨root, rest, hos, hroot, hend⟩
    keys := fun o ho o' ho' p hp hp' => hdistinct o ho o' ho' p hp hp' (Nat.zero_le p)
    paths := hpaths
    kinds := hkinds
    ids := hids
    agrees := hagrees
    transitions := by simpa using htransitions
    nodes_eq := rfl
    transitions_eq := rfl }

/-- Every definition is well formed that is built from states with keys of their own. -/
theorem wellFormed_of_build {raw : MachineConfig} (hkeys : raw.root.KeysDistinct)
    {d : Definition L} (h : build raw = .ok d) : d.WellFormed := by
  obtain ⟨machine, os, linked, ts, hassembled⟩ := assembled_of_build hkeys h
  exact hassembled.wellFormed

/-- What is built from a document is built from states with keys of their own. -/
theorem exists_build {j : Json} {d : Definition L} (h : ofJson j = .ok d) :
    ∃ raw : MachineConfig, raw.root.KeysDistinct ∧ build raw = .ok d := by
  unfold ofJson at h
  split at h
  · rename_i raw hraw
    exact ⟨raw, MachineConfig.keysDistinct_of_ofJson hraw, h⟩
  · cases h

/-- Every definition built from a document is well formed. -/
theorem wellFormed_of_ofJson {j : Json} {d : Definition L} (h : ofJson j = .ok d) :
    d.WellFormed := by
  obtain ⟨raw, hkeys, hbuild⟩ := exists_build h
  exact wellFormed_of_build hkeys hbuild

end Definition

end Statechart
