import Statechart.Proofs.Build
import Statechart.Proofs.Completion
import Statechart.Proofs.Existing
import Statechart.Proofs.Recall

/-!
# State values

A state value names the active states below the root, each of them once (`names_valueAt`), so a
configuration can be read back from its state value (`ofValue_stateValue`). Whatever else a value
is, it is read by looking children up by their keys (`Asks`), and names what it finds (`named_ok`).
-/

namespace Statechart.Definition

variable {L : Type} {d : Definition L} {config : Configuration}

/-- A value names exactly the active states below a state. -/
def Names (d : Definition L) (config : Configuration) (value : StateValue) (state : Nat) : Prop :=
  ∃ states, d.named state value = .ok states ∧ ∀ j, j ∈ states ↔ j ∈ config ∧ d.Below j state

/-! ## The value of a state -/

theorem valueAt_of_atomic {i : Nat} (hatomic : (d.node i).isAtomic = true) (fuel : Nat) :
    d.valueAt config fuel i = .branch [] := by
  cases fuel with
  | zero => rfl
  | succ fuel =>
      unfold valueAt
      cases hk : (d.node i).kind <;> simp [StateNode.isAtomic, hk] at hatomic ⊢

theorem valueAt_of_compound {fuel p c : Nat} (hk : (d.node p).kind = .compound)
    (hfind : (d.node p).children.find? config.contains = some c) :
    d.valueAt config (fuel + 1) p =
      if (d.node c).isAtomic then .leaf (d.node c).key
      else .branch [((d.node c).key, d.valueAt config fuel c)] := by
  simp only [valueAt, hk, hfind]

theorem valueAt_of_parallel {fuel p : Nat} (hk : (d.node p).kind = .parallel) :
    d.valueAt config (fuel + 1) p =
      .branch (SortedMap.ofList (((d.node p).children.filter config.contains).map fun c =>
        ((d.node c).key, d.valueAt config fuel c))) := by
  simp only [valueAt, hk, StateValue.ofFields]

/-- The child that a compound state's value is about is the active one. -/
theorem Possible.find?_active (hconfig : d.Possible config) {p c : Nat} (hp : p ∈ config)
    (hk : (d.node p).kind = .compound) (hc : c ∈ (d.node p).children) (hact : c ∈ config) :
    (d.node p).children.find? config.contains = some c := by
  obtain ⟨c₀, -, -, hunique⟩ := hconfig.compound p hp hk
  cases hfind : (d.node p).children.find? config.contains with
  | none => exact absurd hact (List.find?_eq_none.mp hfind c hc)
  | some c' =>
      rw [hunique c hc hact,
        hunique c' (List.mem_of_find?_eq_some hfind) (List.find?_some hfind)]

/-! ## Keys -/

theorem childByKey?_mem {p c : Nat} {key : String} (h : d.childByKey? p key = some c) :
    c ∈ (d.node p).children :=
  List.mem_of_find?_eq_some h

theorem key_of_childByKey? {p c : Nat} {key : String} (h : d.childByKey? p key = some c) :
    (d.node c).key = key := by
  simpa using List.find?_some h

namespace WellFormed

variable (wf : d.WellFormed)
include wf

/-- The key of a child names that child. -/
theorem childByKey?_key {p c : Nat} (hc : c ∈ (d.node p).children) :
    d.childByKey? p (d.node c).key = some c := by
  have hp : p < d.nodes.size := Nat.lt_trans (wf.lt_of_below (wf.child_below hc)) (wf.child_lt hc)
  cases hfind : d.childByKey? p (d.node c).key with
  | none =>
      have hnone := List.find?_eq_none.mp hfind c hc
      simp at hnone
  | some c' =>
      rw [wf.children_key p hp c' (childByKey?_mem hfind) c hc (key_of_childByKey? hfind)]

theorem namedChild_key {p c : Nat} (hc : c ∈ (d.node p).children) :
    d.namedChild p (d.node c).key = .ok c := by
  rw [namedChild, wf.childByKey?_key hc]

/-- Different children have different keys. -/
theorem nodup_keys {p : Nat} (hp : p < d.nodes.size) {cs : List Nat}
    (hsub : cs.Sublist (d.node p).children) : (cs.map fun c => (d.node c).key).Nodup := by
  have hne := ((wf.children_sorted p hp).imp fun h => Nat.ne_of_lt h).sublist hsub
  refine List.pairwise_map.mpr (hne.imp_of_mem fun {c c'} hc hc' hne heq => ?_)
  exact hne (wf.children_key p hp c (hsub.subset hc) c' (hsub.subset hc') heq)

/-! ## Regions -/

theorem perm_regions {p : Nat} (hp : p < d.nodes.size) (value : Nat → StateValue) :
    (SortedMap.ofList (((d.node p).children.filter config.contains).map fun c =>
      ((d.node c).key, value c))).Perm
    (((d.node p).children.filter config.contains).map fun c => ((d.node c).key, value c)) := by
  apply SortedMap.perm_ofList
  rw [List.map_map]
  exact wf.nodup_keys hp List.filter_sublist

theorem nodup_regions {p : Nat} (hp : p < d.nodes.size) (value : Nat → StateValue) :
    ((SortedMap.ofList (((d.node p).children.filter config.contains).map fun c =>
      ((d.node c).key, value c))).map Prod.fst).Nodup := by
  rw [((wf.perm_regions hp value).map Prod.fst).nodup_iff, List.map_map]
  exact wf.nodup_keys hp List.filter_sublist

/-- The value of a parallel state has an entry for each active region and no other. -/
theorem mem_regions {p : Nat} (hp : p < d.nodes.size) (value : Nat → StateValue)
    {entry : String × StateValue} :
    entry ∈ SortedMap.ofList (((d.node p).children.filter config.contains).map fun c =>
        ((d.node c).key, value c)) ↔
      ∃ c ∈ (d.node p).children, c ∈ config ∧ ((d.node c).key, value c) = entry := by
  rw [(wf.perm_regions hp value).mem_iff, List.mem_map]
  simp only [List.mem_filter, NodeSet.contains_eq_true, and_assoc]

/-! ## From configurations to values and back -/

/-- Entries that each name the active states within a child name all of these states. -/
theorem namedFields_spec {p : Nat} : ∀ {fields : List (String × StateValue)},
    (∀ f ∈ fields, ∃ c ∈ (d.node p).children,
      c ∈ config ∧ f.1 = (d.node c).key ∧ d.Names config f.2 c) →
    ∃ states, d.namedFields p fields = .ok states ∧ ∀ j, j ∈ states ↔
      ∃ f ∈ fields, ∃ c ∈ (d.node p).children,
        f.1 = (d.node c).key ∧ j ∈ config ∧ d.Within j c
  | [], _ => ⟨[], rfl, by simp⟩
  | (key, value) :: rest, h => by
      obtain ⟨c, hc, hact, hkey, below, hbelow, hmem⟩ := h (key, value) List.mem_cons_self
      obtain ⟨others, hothers, hmem'⟩ :=
        namedFields_spec fun f hf => h f (List.mem_cons_of_mem _ hf)
      refine ⟨c :: below ++ others, ?_, fun j => ?_⟩
      · simp only at hkey hbelow
        rw [namedFields, hkey, wf.namedChild_key hc]
        show (do
          let below ← d.named c value
          let others ← d.namedFields p rest
          Except.ok (c :: below ++ others)) = _
        rw [hbelow, hothers]
        rfl
      · rw [List.mem_append, List.mem_cons, hmem, hmem']
        constructor
        · rintro ((rfl | ⟨hj, hjc⟩) | ⟨f, hf, hrest⟩)
          · exact ⟨_, List.mem_cons_self, j, hc, hkey, hact, .refl j⟩
          · exact ⟨_, List.mem_cons_self, c, hc, hkey, hj, hjc.within⟩
          · exact ⟨f, List.mem_cons_of_mem _ hf, hrest⟩
        · rintro ⟨f, hf, c', hc', hkey', hj, hwithin⟩
          rcases List.mem_cons.mp hf with rfl | hf
          · have hp := Nat.lt_trans (wf.lt_of_below (wf.child_below hc)) (wf.child_lt hc)
            -- two children of one state differ in their keys
            have heq := wf.children_key p hp c' hc' c hc (hkey'.symm.trans hkey)
            subst heq
            rcases hwithin with rfl | hbelow'
            · exact .inl (.inl rfl)
            · exact .inl (.inr ⟨hj, hbelow'⟩)
          · exact .inr ⟨f, hf, c', hc', hkey', hj, hwithin⟩

/-- The active states below a state lie within its active children. -/
theorem active_below_iff (hconfig : d.Possible config) {p j : Nat} (hj : j ∈ config) :
    d.Below j p ↔ ∃ c ∈ (d.node p).children, c ∈ config ∧ d.Within j c := by
  constructor
  · intro h
    obtain ⟨c, hc, hwithin⟩ := wf.exists_child h
    exact ⟨c, hc, wf.mem_of_within hconfig hwithin hj, hwithin⟩
  · rintro ⟨c, hc, -, hwithin⟩
    exact wf.below_of_within hwithin (wf.child_below hc)

/-- The value of an active leaf names nothing. -/
theorem names_leaf {i : Nat} (hatomic : (d.node i).isAtomic = true) :
    d.Names config (.branch []) i := by
  refine ⟨[], rfl, fun j => ?_⟩
  simp only [List.not_mem_nil, false_iff, not_and]
  exact fun _ => wf.not_below_of_atomic hatomic j

/-- Entries for the active children of a state, each with a value that names what is active below
the child, name what is active below the state. -/
theorem names_branch (hconfig : d.Possible config) {p : Nat}
    {fields : List (String × StateValue)}
    (hfields : ∀ f ∈ fields, ∃ c ∈ (d.node p).children,
      c ∈ config ∧ f.1 = (d.node c).key ∧ d.Names config f.2 c)
    (hall : ∀ c ∈ (d.node p).children, c ∈ config → ∃ f ∈ fields, f.1 = (d.node c).key) :
    d.Names config (.branch fields) p := by
  obtain ⟨states, hnamed, hmem⟩ := wf.namedFields_spec hfields
  refine ⟨states, by rw [named, hnamed], fun j => ?_⟩
  rw [hmem]
  constructor
  · rintro ⟨f, hf, c, hc, -, hj, hwithin⟩
    exact ⟨hj, wf.below_of_within hwithin (wf.child_below hc)⟩
  · rintro ⟨hj, hbelow⟩
    obtain ⟨c, hc, hact, hwithin⟩ := (wf.active_below_iff hconfig hj).mp hbelow
    obtain ⟨f, hf, hkey⟩ := hall c hc hact
    exact ⟨f, hf, c, hc, hkey, hj, hwithin⟩

/-- The value of an active state names what is active below it. -/
theorem names_valueAt (hconfig : d.Possible config) {fuel i : Nat} (hi : i ∈ config)
    (hfuel : d.nodes.size < fuel + i) : d.Names config (d.valueAt config fuel i) i := by
  induction fuel generalizing i with
  | zero =>
      have := hconfig.lt i hi
      omega
  | succ fuel ih =>
      -- children stand after their parents, so less fuel is enough for them
      have hchild : ∀ c ∈ (d.node i).children, c ∈ config →
          d.Names config (d.valueAt config fuel c) c := by
        intro c hc hact
        have := wf.lt_of_below (wf.child_below hc)
        exact ih hact (by omega)
      have hhist := hconfig.history i hi
      cases hkind : (d.node i).kind with
      | atomic =>
          have hatomic : (d.node i).isAtomic = true := by simp [StateNode.isAtomic, hkind]
          rw [valueAt_of_atomic hatomic]
          exact wf.names_leaf hatomic
      | final =>
          have hatomic : (d.node i).isAtomic = true := by simp [StateNode.isAtomic, hkind]
          rw [valueAt_of_atomic hatomic]
          exact wf.names_leaf hatomic
      | history => simp [StateNode.isHistory, hkind] at hhist
      | compound =>
          obtain ⟨c, hc, hact, hunique⟩ := hconfig.compound i hi hkind
          rw [valueAt_of_compound hkind (hconfig.find?_active hi hkind hc hact)]
          split
          · rename_i hatomic
            refine ⟨[c], ?_, fun j => ?_⟩
            · rw [named, wf.namedChild_key hc]
              rfl
            · rw [List.mem_singleton]
              constructor
              · rintro rfl
                exact ⟨hact, wf.child_below hc⟩
              · rintro ⟨hj, hbelow⟩
                obtain ⟨c', hc', hact', hwithin⟩ := (wf.active_below_iff hconfig hj).mp hbelow
                rw [hunique c' hc' hact'] at hwithin
                exact hwithin.resolve_right (wf.not_below_of_atomic hatomic j)
          · refine wf.names_branch hconfig (fun f hf => ?_) fun c' hc' hact' => ?_
            · rw [List.mem_singleton.mp hf]
              exact ⟨c, hc, hact, rfl, hchild c hc hact⟩
            · rw [hunique c' hc' hact']
              exact ⟨_, List.mem_cons_self, rfl⟩
      | parallel =>
          have hlt := hconfig.lt i hi
          rw [valueAt_of_parallel hkind]
          refine wf.names_branch hconfig (fun f hf => ?_) fun c hc hact => ?_
          · obtain ⟨c, hc, hact, rfl⟩ := (wf.mem_regions hlt _).mp hf
            exact ⟨c, hc, hact, rfl, hchild c hc hact⟩
          · exact ⟨_, (wf.mem_regions hlt _).mpr ⟨c, hc, hact, rfl⟩, rfl⟩

/-- To complete all active states adds nothing. -/
theorem resolve_active (hconfig : d.Possible config) {previous : Configuration}
    {targets : List Nat} (hne : targets ≠ []) (hmem : ∀ j, j ∈ targets ↔ j ∈ config) :
    d.resolve previous targets = config := by
  have hlt : ∀ t ∈ targets, t < d.nodes.size := fun t ht => hconfig.lt t ((hmem t).mp ht)
  have htargeted : ∀ {c}, d.Targeted targets c → c ∈ config := by
    rintro c ⟨t, ht, hwithin⟩
    exact wf.mem_of_within hconfig hwithin ((hmem t).mp ht)
  refine NodeSet.ext fun j => ?_
  rw [wf.mem_resolve hlt hne]
  constructor
  · intro h
    induction h with
    | first hc hp _ =>
        rw [wf.parent_eq_none hc hp]
        exact hconfig.root
    | @next p c _ hp hchosen ih =>
        rcases hchosen with htarget | ⟨hpar, hno⟩ | ⟨hcomp, hnone, -⟩
        · exact htargeted htarget
        · exact hconfig.parallel p ih hpar c (wf.mem_children.mpr hp) hno
        · -- an active compound state has an active child, which is a target
          obtain ⟨c', hc', hact, -⟩ := hconfig.compound p ih hcomp
          exact absurd ⟨c', (hmem c').mpr hact, .refl c'⟩ (hnone c' hc')
  · intro hj
    exact wf.filled_of_targeted ⟨j, (hmem j).mpr hj, .refl j⟩ (hconfig.lt j hj)

/-- A configuration can be read back from its state value. -/
theorem ofValue_stateValue (hconfig : d.Possible config) :
    d.ofValue (d.stateValue config) = .ok config := by
  have hfuel : d.nodes.size < d.nodes.size + 1 + rootIndex := Nat.lt_succ_self _
  obtain ⟨states, hnamed, hmem⟩ := wf.names_valueAt hconfig hconfig.root hfuel
  have hall : ∀ j, j ∈ rootIndex :: states ↔ j ∈ config := by
    intro j
    rw [List.mem_cons, hmem]
    constructor
    · rintro (rfl | ⟨hj, -⟩)
      · exact hconfig.root
      · exact hj
    · intro hj
      rcases wf.within_root (hconfig.lt j hj) with rfl | hbelow
      · exact .inl rfl
      · exact .inr ⟨hj, hbelow⟩
  rw [ofValue, stateValue, rootIndex, hnamed]
  show Except.ok (d.resolve .empty (rootIndex :: states)) = _
  rw [wf.resolve_active hconfig (List.cons_ne_nil _ _) hall]

end WellFormed

/-! ## What a value asks for -/

variable (d) in
/-- A value that is read at one state asks another one for the child with a key. -/
inductive Asks : Nat → StateValue → Nat → String → Prop
  | leaf (p : Nat) (key : String) : Asks p (.leaf key) p key
  | entry {p : Nat} {key : String} {value : StateValue} {fields : List (String × StateValue)}
      (hentry : (key, value) ∈ fields) : Asks p (.branch fields) p key
  | deeper {p c q : Nat} {key asked : String} {value : StateValue}
      {fields : List (String × StateValue)} (hentry : (key, value) ∈ fields)
      (hchild : d.childByKey? p key = some c) (hbelow : Asks c value q asked) :
      Asks p (.branch fields) q asked

variable (d) in
/-- All that a value asks for is found, and makes up some states. -/
structure Answered (p : Nat) (value : StateValue) (states : List Nat) : Prop where
  found : ∀ q asked, d.Asks p value q asked → ∃ c, d.childByKey? q asked = some c
  mem : ∀ c, c ∈ states ↔ ∃ q asked, d.Asks p value q asked ∧ d.childByKey? q asked = some c

variable {p q c : Nat} {key asked : String} {value : StateValue} {states : List Nat}
  {rest : List (String × StateValue)}

theorem namedChild_ok : d.namedChild p key = .ok c ↔ d.childByKey? p key = some c := by
  unfold namedChild
  cases d.childByKey? p key with
  | none => simp
  | some c' => simp

theorem asks_leaf : d.Asks p (.leaf key) q asked ↔ q = p ∧ asked = key := by
  constructor
  · rintro ⟨⟩
    exact ⟨rfl, rfl⟩
  · rintro ⟨rfl, rfl⟩
    exact .leaf q asked

/-- A branch asks for its first entry, for what that asks for, or for what the others ask for. -/
theorem asks_cons (hchild : d.childByKey? p key = some c) :
    d.Asks p (.branch ((key, value) :: rest)) q asked ↔
      (q = p ∧ asked = key) ∨ d.Asks c value q asked ∨ d.Asks p (.branch rest) q asked := by
  constructor
  · intro h
    cases h with
    | entry hentry =>
        rcases List.mem_cons.mp hentry with heq | hentry
        · cases heq
          exact .inl ⟨rfl, rfl⟩
        · exact .inr (.inr (.entry hentry))
    | deeper hentry hfound hbelow =>
        rcases List.mem_cons.mp hentry with heq | hentry
        · cases heq
          cases hfound.symm.trans hchild
          exact .inr (.inl hbelow)
        · exact .inr (.inr (.deeper hentry hfound hbelow))
  · rintro (⟨rfl, rfl⟩ | hbelow | h)
    · exact .entry List.mem_cons_self
    · exact .deeper List.mem_cons_self hchild hbelow
    · cases h with
      | entry hentry => exact .entry (List.mem_cons_of_mem _ hentry)
      | deeper hentry hfound hbelow => exact .deeper (List.mem_cons_of_mem _ hentry) hfound hbelow

theorem Answered.nil : d.Answered p (.branch []) [] := by
  have hno : ∀ q asked, ¬ d.Asks p (.branch []) q asked := by
    rintro q asked (_ | hentry | ⟨hentry, -, -⟩) <;> cases hentry
  exact ⟨fun q asked h => absurd h (hno q asked), fun c => by simp [hno]⟩

theorem Answered.cons {below others : List Nat} (hchild : d.childByKey? p key = some c)
    (hbelow : d.Answered c value below) (hothers : d.Answered p (.branch rest) others) :
    d.Answered p (.branch ((key, value) :: rest)) (c :: below ++ others) := by
  constructor
  · intro q asked h
    rcases (asks_cons hchild).mp h with ⟨rfl, rfl⟩ | h | h
    · exact ⟨c, hchild⟩
    · exact hbelow.found q asked h
    · exact hothers.found q asked h
  · intro i
    simp only [List.mem_append, List.mem_cons, hbelow.mem, hothers.mem, asks_cons hchild]
    constructor
    · rintro ((rfl | ⟨q, asked, h⟩) | ⟨q, asked, h⟩)
      · exact ⟨p, key, .inl ⟨rfl, rfl⟩, hchild⟩
      · exact ⟨q, asked, .inr (.inl h.1), h.2⟩
      · exact ⟨q, asked, .inr (.inr h.1), h.2⟩
    · rintro ⟨q, asked, ⟨rfl, rfl⟩ | h | h, hfound⟩
      · cases hfound.symm.trans hchild
        exact .inl (.inl rfl)
      · exact .inl (.inr ⟨q, asked, h, hfound⟩)
      · exact .inr ⟨q, asked, h, hfound⟩

mutual

/-- A value that can be read names what it asks for. -/
theorem named_ok : ∀ {value : StateValue} {p : Nat} {states : List Nat},
    d.named p value = .ok states → d.Answered p value states
  | .leaf key, p, _, h => by
      obtain ⟨c, hc, h⟩ := Except.bind_eq_ok.mp h
      cases h
      have hchild := namedChild_ok.mp hc
      constructor
      · intro q asked hasks
        obtain ⟨rfl, rfl⟩ := asks_leaf.mp hasks
        exact ⟨c, hchild⟩
      · intro i
        simp only [asks_leaf, List.mem_singleton]
        constructor
        · rintro rfl
          exact ⟨p, key, ⟨rfl, rfl⟩, hchild⟩
        · rintro ⟨q, asked, ⟨rfl, rfl⟩, hfound⟩
          cases hfound.symm.trans hchild
          rfl
  | .branch _, _, _, h => by
      rw [named] at h
      exact namedFields_ok h

theorem namedFields_ok : ∀ {fields : List (String × StateValue)} {p : Nat} {states : List Nat},
    d.namedFields p fields = .ok states → d.Answered p (.branch fields) states
  | [], _, _, h => by
      cases h
      exact .nil
  | (key, value) :: rest, p, _, h => by
      rw [namedFields] at h
      obtain ⟨c, hc, h⟩ := Except.bind_eq_ok.mp h
      obtain ⟨below, hbelow, h⟩ := Except.bind_eq_ok.mp h
      obtain ⟨others, hothers, h⟩ := Except.bind_eq_ok.mp h
      cases h
      exact .cons (namedChild_ok.mp hc) (named_ok hbelow) (namedFields_ok hothers)

end

namespace WellFormed

variable (wf : d.WellFormed)
include wf

theorem lt_of_answered (hanswered : d.Answered rootIndex value states) :
    ∀ t ∈ rootIndex :: states, t < d.nodes.size := by
  intro t ht
  rcases List.mem_cons.mp ht with rfl | ht
  · exact wf.size_pos
  · obtain ⟨q, asked, -, hfound⟩ := (hanswered.mem t).mp ht
    exact wf.child_lt (childByKey?_mem hfound)

/-- What is read from a state value consists of states of the definition. -/
theorem existing_ofValue (h : d.ofValue value = .ok config) : d.Existing config := by
  obtain ⟨states, hnamed, h⟩ := Except.bind_eq_ok.mp h
  cases h
  intro i hi
  exact wf.filled_lt ((wf.mem_resolve (wf.lt_of_answered (named_ok hnamed))
    (List.cons_ne_nil _ _)).mp hi)

end WellFormed

end Statechart.Definition
