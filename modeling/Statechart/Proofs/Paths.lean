import Statechart.Proofs.Arena
import Statechart.Proofs.StateValue

/-!
# Paths of keys

A dotted path names keys that lead down from the root. A state value writes what is active in three
ways: a leaf, an entry with what is active below it, an entry with nothing in it. All three answer a
path alike (`includes_valueAt_iff`), so that a path is contained in the value of a configuration
exactly if its keys are those on the way to some active state (`matchesPath_iff`).
-/

namespace Statechart

/-! ## Reading a path -/

namespace StateValue

theorem ofPath_joinDots {keys : List String} (hne : keys ≠ [])
    (h : ∀ k ∈ keys, k ≠ "" ∧ '.' ∉ k.toList) : ofPath (Text.joinDots keys) = ofKeys keys := by
  rw [ofPath, Text.splitDots_joinDots hne fun k hk => (h k hk).2]
  rw [List.filter_eq_self.mpr]
  intro k hk
  simpa using (h k hk).1

/-! ## Asking a value for keys -/

variable {key : String} {keys : List String} {fields : List (String × StateValue)}

@[simp] theorem includes_ofKeys_nil (value : StateValue) : includes value (ofKeys []) = true := by
  cases value <;> simp [ofKeys, includes, includesFields]

theorem includes_leaf_iff {k : String} :
    includes (.leaf k) (ofKeys (key :: keys)) = true ↔ k = key ∧ keys = [] := by
  cases keys with
  | nil => simp [ofKeys, includes]
  | cons next rest => simp [ofKeys, includes]

theorem includes_empty_iff : includes (.branch []) (ofKeys keys) = true ↔ keys = [] := by
  cases keys with
  | nil => simp
  | cons key rest =>
      cases rest <;> simp [ofKeys, includes, includesFields, SortedMap.has, SortedMap.find?]

/-- A branch has an entry for the first key, and what stands there has the others. -/
theorem includes_branch_iff : includes (.branch fields) (ofKeys (key :: keys)) = true ↔
    ∃ value, SortedMap.find? key fields = some value ∧ includes value (ofKeys keys) = true := by
  cases keys with
  | nil =>
      show SortedMap.has key fields = true ↔ _
      rw [SortedMap.has, Option.isSome_iff_exists]
      simp
  | cons next rest =>
      show (includes (.branch fields) (.branch [(key, ofKeys (next :: rest))])) = true ↔ _
      rw [includes, includesFields, includesFields, Bool.and_true]
      cases SortedMap.find? key fields with
      | none => simp
      | some value => simp

end StateValue

namespace Definition

variable {L : Type} {d : Definition L} {config : Configuration}

/-! ## Ways down -/

variable (d) in
/-- The keys on the way from the root down to a state, the root left out. -/
def keyPath (i : Nat) : List String :=
  ((i :: d.properAncestors i none).reverse.tail).map fun j => (d.node j).key

variable (d) in
/-- Keys that lead from one state down to another one. -/
inductive Descends : Nat → List String → Nat → Prop
  | here (i : Nat) : Descends i [] i
  | down {p c j : Nat} {keys : List String} (hchild : c ∈ (d.node p).children)
      (hrest : Descends c keys j) : Descends p ((d.node c).key :: keys) j

theorem descends_cons {p j : Nat} {key : String} {keys : List String} :
    d.Descends p (key :: keys) j ↔
      ∃ c ∈ (d.node p).children, (d.node c).key = key ∧ d.Descends c keys j := by
  constructor
  · rintro ⟨⟩
    rename_i c hchild hrest
    exact ⟨c, hchild, rfl, hrest⟩
  · rintro ⟨c, hchild, rfl, hrest⟩
    exact .down hchild hrest

theorem Descends.snoc {p q j : Nat} {keys : List String} (h : d.Descends p keys q)
    (hj : j ∈ (d.node q).children) : d.Descends p (keys ++ [(d.node j).key]) j := by
  induction h with
  | here i => exact .down hj (.here j)
  | down hchild _ ih => exact .down hchild (ih hj)

namespace WellFormed

variable (wf : d.WellFormed)
include wf

theorem keyPath_root : d.keyPath rootIndex = [] := by
  show ((0 :: d.properAncestors 0 none).reverse.tail.map fun j => (d.node j).key) = []
  rw [properAncestors_of_none none wf.parent_zero]
  rfl

theorem keyPath_child {p c : Nat} (hc : c ∈ (d.node p).children) :
    d.keyPath c = d.keyPath p ++ [(d.node c).key] := by
  rw [keyPath, keyPath, wf.properAncestors_cons none (wf.mem_children.mp hc), if_neg nofun,
    List.reverse_cons, List.tail_append_of_ne_nil (by simp), List.map_append]
  rfl

theorem keyPath_of_descends {p j : Nat} {keys : List String} (h : d.Descends p keys j) :
    d.keyPath j = d.keyPath p ++ keys := by
  induction h with
  | here i => rw [List.append_nil]
  | down hchild _ ih => rw [ih, wf.keyPath_child hchild, List.append_assoc, List.singleton_append]

theorem descends_keyPath {j : Nat} (hj : j < d.nodes.size) :
    d.Descends rootIndex (d.keyPath j) j := by
  induction j using Nat.strongRecOn with
  | _ j ih =>
      cases hp : (d.node j).parent with
      | none =>
          obtain rfl := wf.parent_eq_none hj hp
          rw [show d.keyPath 0 = [] from wf.keyPath_root]
          exact .here 0
      | some p =>
          have hlt := wf.parent_lt hp
          have hchild := wf.mem_children.mpr hp
          rw [wf.keyPath_child hchild]
          exact (ih p hlt.1 (by omega)).snoc hchild

/-- From the root, a state is reached by the keys of its path only. -/
theorem descends_root_iff {j : Nat} {keys : List String} (hj : j < d.nodes.size) :
    d.Descends rootIndex keys j ↔ d.keyPath j = keys := by
  constructor
  · intro h
    rw [wf.keyPath_of_descends h, wf.keyPath_root, List.nil_append]
  · rintro rfl
    exact wf.descends_keyPath hj

theorem within_of_descends {p j : Nat} {keys : List String} (h : d.Descends p keys j) :
    d.Within j p := by
  induction h with
  | here i => exact .refl i
  | down hchild _ ih => exact (wf.below_of_within ih (wf.child_below hchild)).within

end WellFormed

/-! ## What a state value has -/

variable (d config) in
/-- The value of a state answers a key with an active child, and leaves the other keys to that
child's value. -/
def Answers (fuel p : Nat) (key : String) (keys : List String) : Prop :=
  (d.valueAt config (fuel + 1) p).includes (.ofKeys (key :: keys)) = true ↔
    ∃ c ∈ (d.node p).children, c ∈ config ∧ (d.node c).key = key ∧
      (d.valueAt config fuel c).includes (.ofKeys keys) = true

variable {fuel p : Nat} {key : String} {keys : List String}

/-- A compound state has its active child alone to answer, be it a leaf or not. -/
theorem Possible.answers_compound (hconfig : d.Possible config) (hp : p ∈ config)
    (hk : (d.node p).kind = .compound) : d.Answers config fuel p key keys := by
  obtain ⟨c, hc, hact, hunique⟩ := hconfig.compound p hp hk
  have honly : (∃ c' ∈ (d.node p).children, c' ∈ config ∧ (d.node c').key = key ∧
      (d.valueAt config fuel c').includes (.ofKeys keys) = true) ↔
      (d.node c).key = key ∧ (d.valueAt config fuel c).includes (.ofKeys keys) = true := by
    constructor
    · rintro ⟨c', hc', hact', h⟩
      rw [hunique c' hc' hact'] at h
      exact h
    · intro h
      exact ⟨c, hc, hact, h⟩
  unfold Answers
  rw [valueAt_of_compound hk (hconfig.find?_active hp hk hc hact), honly]
  by_cases hleaf : (d.node c).isAtomic = true
  · rw [if_pos hleaf, StateValue.includes_leaf_iff, valueAt_of_atomic hleaf,
      StateValue.includes_empty_iff]
  · rw [if_neg hleaf, StateValue.includes_branch_iff]
    constructor
    · rintro ⟨value, hfind, hincludes⟩
      obtain ⟨hkey, rfl⟩ := SortedMap.find?_singleton.mp hfind
      exact ⟨hkey, hincludes⟩
    · rintro ⟨hkey, hincludes⟩
      exact ⟨_, SortedMap.find?_singleton.mpr ⟨hkey, rfl⟩, hincludes⟩

namespace WellFormed

variable (wf : d.WellFormed)
include wf

/-- In the value of a parallel state, a key finds the value of the active region with this key. -/
theorem find?_regions (hp : p < d.nodes.size) (value : Nat → StateValue) {found : StateValue} :
    SortedMap.find? key (SortedMap.ofList (((d.node p).children.filter config.contains).map fun c =>
        ((d.node c).key, value c))) = some found ↔
      ∃ c ∈ (d.node p).children, c ∈ config ∧ (d.node c).key = key ∧ value c = found := by
  rw [SortedMap.find?_eq_some_iff (wf.nodup_regions hp value), wf.mem_regions hp]
  simp only [Prod.mk.injEq]

/-- Below a leaf there is nothing, and its value is empty. -/
theorem answers_atomic (hatomic : (d.node p).isAtomic = true) :
    d.Answers config fuel p key keys := by
  unfold Answers
  rw [valueAt_of_atomic hatomic, StateValue.includes_branch_iff]
  constructor
  · rintro ⟨value, hfind, -⟩
    cases hfind
  · rintro ⟨c, hc, -⟩
    exact absurd (wf.child_below hc) (wf.not_below_of_atomic hatomic c)

theorem answers_parallel (hp : p < d.nodes.size) (hk : (d.node p).kind = .parallel) :
    d.Answers config fuel p key keys := by
  unfold Answers
  rw [valueAt_of_parallel hk, StateValue.includes_branch_iff]
  constructor
  · rintro ⟨value, hfind, hincludes⟩
    obtain ⟨c, hc, hact, hkey, rfl⟩ := (wf.find?_regions hp _).mp hfind
    exact ⟨c, hc, hact, hkey, hincludes⟩
  · rintro ⟨c, hc, hact, hkey, hincludes⟩
    exact ⟨_, (wf.find?_regions hp _).mpr ⟨c, hc, hact, hkey, rfl⟩, hincludes⟩

theorem answers_of_active (hconfig : d.Possible config) (hp : p ∈ config) :
    d.Answers config fuel p key keys := by
  cases hk : (d.node p).kind with
  | atomic => exact wf.answers_atomic (by simp [StateNode.isAtomic, hk])
  | final => exact wf.answers_atomic (by simp [StateNode.isAtomic, hk])
  | history =>
      have hno := hconfig.history p hp
      simp [StateNode.isHistory, hk] at hno
  | parallel => exact wf.answers_parallel (hconfig.lt p hp) hk
  | compound => exact hconfig.answers_compound hp hk

/-- The value of an active state contains the keys that lead from it to active states. -/
theorem includes_valueAt_iff (hconfig : d.Possible config) (hp : p ∈ config)
    (hfuel : d.nodes.size < fuel + p) :
    (d.valueAt config fuel p).includes (.ofKeys keys) = true ↔
      ∃ j ∈ config, d.Descends p keys j := by
  -- each key leads to a child, which stands later and so needs less fuel
  induction keys generalizing fuel p with
  | nil =>
      constructor
      · intro _
        exact ⟨p, hp, .here p⟩
      · intro _
        exact StateValue.includes_ofKeys_nil _
  | cons key keys ih =>
      have hlt := hconfig.lt p hp
      obtain ⟨fuel, rfl⟩ : ∃ n, fuel = n + 1 := ⟨fuel - 1, by omega⟩
      have hanswers : d.Answers config fuel p key keys := wf.answers_of_active hconfig hp
      refine hanswers.trans ?_
      constructor
      · rintro ⟨c, hc, hact, rfl, hincludes⟩
        have := wf.lt_of_below (wf.child_below hc)
        obtain ⟨j, hj, hrest⟩ := (ih hact (by omega)).mp hincludes
        exact ⟨j, hj, .down hc hrest⟩
      · rintro ⟨j, hj, hdescends⟩
        obtain ⟨c, hc, hkey, hrest⟩ := descends_cons.mp hdescends
        have := wf.lt_of_below (wf.child_below hc)
        have hact := wf.mem_of_within hconfig (wf.within_of_descends hrest) hj
        exact ⟨c, hc, hact, hkey, (ih hact (by omega)).mpr ⟨j, hj, hrest⟩⟩

end WellFormed

/-- **Paths.** The value of a configuration matches a dotted path exactly if its pieces are the keys
on the way from the root to an active state. -/
theorem matchesPath_iff (h : d.Accepted) (hvalid : d.isValid config = true)
    (hne : config ≠ .empty) (hexist : ∀ i ∈ config, i < d.nodes.size) {keys : List String}
    (hkeys : keys ≠ []) (hplain : ∀ k ∈ keys, k ≠ "" ∧ '.' ∉ k.toList) :
    (d.stateValue config).matchesPath (Text.joinDots keys) = true ↔
      ∃ i ∈ config, d.keyPath i = keys := by
  have wf := h.wellFormed
  have hconfig := wf.possible_iff.mpr ⟨hvalid, hne, hexist⟩
  have hroot : rootIndex ∈ config := hconfig.root
  rw [StateValue.matchesPath, StateValue.ofPath_joinDots hkeys hplain, stateValue,
    wf.includes_valueAt_iff hconfig hroot (by omega)]
  constructor
  · rintro ⟨i, hi, hdescends⟩
    exact ⟨i, hi, (wf.descends_root_iff (hexist i hi)).mp hdescends⟩
  · rintro ⟨i, hi, hpath⟩
    exact ⟨i, hi, (wf.descends_root_iff (hexist i hi)).mpr hpath⟩

/-- A radio that plays and is lit while it is on. -/
def radioJson : Json :=
  let band : Json := .obj
    [("initial", .str "fm"), ("states", .obj [("am", .obj []), ("fm", .obj [])])]
  let on : Json := .obj
    [("type", .str "parallel"), ("states", .obj [("band", band), ("light", .obj [])])]
  .obj [("id", .str "radio"), ("initial", .str "off"), ("states", .obj
    [("off", .obj []), ("on", on)])]

/-- The radio with nothing supplied. -/
def radio : Definition Unit := (ofJson radioJson).toOption.getD default

/-- The radio is on. -/
def playing : Configuration := .ofList [0, 2, 3, 5, 6]

set_option maxRecDepth 100000 in
theorem radio_paths :
    (radio.stateValue playing).matchesPath (Text.joinDots ["on", "light"]) = true ∧
      (radio.stateValue playing).matchesPath (Text.joinDots ["on", "band", "am"]) = false := by
  have haccepted : radio.Accepted := accepted_of_isOk rfl
  have hvalid : radio.isValid playing = true := by decide +kernel
  have hne : playing ≠ .empty := by decide
  have hmem : ∀ i, i ∈ playing ↔ i ∈ [0, 2, 3, 5, 6] := fun i => NodeSet.mem_ofList _ i
  have hexist : ∀ i ∈ playing, i < radio.nodes.size := by
    intro i hi
    have hall : ∀ i ∈ [0, 2, 3, 5, 6], i < radio.nodes.size := by decide
    exact hall i ((hmem i).mp hi)
  constructor
  · apply (matchesPath_iff haccepted hvalid hne hexist (by decide) (by decide)).mpr
    exact ⟨6, (hmem 6).mpr (by decide), by decide⟩
  · apply Bool.eq_false_iff.mpr
    intro hmatch
    obtain ⟨i, hi, hpath⟩ :=
      (matchesPath_iff haccepted hvalid hne hexist (by decide) (by decide)).mp hmatch
    have hnone : ∀ i ∈ [0, 2, 3, 5, 6], radio.keyPath i ≠ ["on", "band", "am"] := by decide
    exact hnone i ((hmem i).mp hi) hpath

end Definition
end Statechart
