import Mathlib
import Statechart.Proofs.Serialization

/-!
# Written definitions are built again

A definition can be built from what it was written as, because building does not look into actions:
the layout, the checks and the targets stay when actions are changed, and an action that compiles
still does after it was written and read. `Definition.toJson_reread` says what comes back: the same
definition exactly if no supplied action called `log` is written with fields, and otherwise one in
which each of these is the built-in (`Definition.diary_rewritten`).
-/

namespace Statechart

/-! ## Layouts -/

/-- The outline with every action changed. -/
def Outline.mapActions (f : ActionConfig → ActionConfig) (o : Outline) : Outline :=
  { o with attributes := o.attributes.mapActions f }

namespace StateConfig

variable (f : ActionConfig → ActionConfig)

mutual

theorem size_mapActions : ∀ c : StateConfig, size (mapActions f c) = size c
  | .node _ none => rfl
  | .node _ (some states) => by rw [mapActions, size, size, sizeAll_mapActionsAll states]

theorem sizeAll_mapActionsAll : ∀ states : List (String × StateConfig),
    sizeAll (mapActionsAll f states) = sizeAll states
  | [] => rfl
  | (_, state) :: rest => by
      rw [mapActionsAll, sizeAll, sizeAll, size_mapActions state, sizeAll_mapActionsAll rest]

end

theorem positions_mapActionsAll (index : Nat) (states : List (String × StateConfig)) :
    positions index (mapActionsAll f states) = positions index states := by
  induction states generalizing index with
  | nil => rfl
  | cons entry rest ih =>
      obtain ⟨key, state⟩ := entry
      rw [mapActionsAll, positions, positions, size_mapActions, ih]

mutual

/-- Changed actions stand where the others stood. -/
theorem layout_mapActions (index : Nat) (key : String) (parent : Option Nat)
    (path : List String) : ∀ c : StateConfig, layout index key parent path (mapActions f c) =
      (layout index key parent path c).map (Outline.mapActions f)
  | .node attributes none => rfl
  | .node attributes (some states) => by
      rw [mapActions, layout, layout, List.map_cons, layoutAll_mapActionsAll,
        positions_mapActionsAll, sizeAll_mapActionsAll]
      rfl

theorem layoutAll_mapActionsAll (index parent : Nat) (path : List String) :
    ∀ states : List (String × StateConfig), layoutAll index parent path (mapActionsAll f states) =
      (layoutAll index parent path states).map (Outline.mapActions f)
  | [] => rfl
  | (key, state) :: rest => by
      rw [mapActionsAll, layoutAll, layoutAll, List.map_append,
        layout_mapActions index key (some parent) (path ++ [key]) state, size_mapActions,
        layoutAll_mapActionsAll (index + size state) parent path rest]

end

end StateConfig

theorem Outline.check_mapActions (f : ActionConfig → ActionConfig) (machine : String)
    (used : List String) (os : List Outline) :
    check machine used (os.map (mapActions f)) = check machine used os := by
  induction os generalizing used with
  | nil => rfl
  | cons o rest ih =>
      have hid : (o.mapActions f).id machine = o.id machine := rfl
      have hfault : (o.mapActions f).kindFault? = o.kindFault? := rfl
      rw [List.map_cons, check, check, hid, hfault]
      simp only [ih]

/-! ## Links -/

namespace Definition

variable {L : Type} {f : ActionConfig → ActionConfig}

/-- Actions that compile still do so when they are changed. -/
def KeepsCompiling (L : Type) (f : ActionConfig → ActionConfig) : Prop :=
  ∀ {as : List ActionConfig} {xs : List (Action L)}, ActionConfig.compileAll as = .ok xs →
    ∃ ys : List (Action L), ActionConfig.compileAll (as.map f) = .ok ys

variable (hf : KeepsCompiling L f) {nodes : Array (StateNode L)} {source : Nat}
include hf

theorem linkTransitions_mapActions {event : Descriptor} {delay : Option Delay} :
    ∀ {ts : List TransitionConfig} {xs : List (Transition L)},
      linkTransitions nodes source event delay ts = .ok xs →
        ∃ ys, linkTransitions nodes source event delay (ts.map (.mapActions f)) = .ok ys
  | [], _, _ => ⟨[], rfl⟩
  | t :: rest, _, h => by
      simp only [linkTransitions, linkTransition, Except.bind_eq_ok] at h
      obtain ⟨_, ⟨targets, htargets, guard, hguard, actions, hactions, _⟩, others, hothers, _⟩ := h
      obtain ⟨ys, hys⟩ := hf hactions
      obtain ⟨zs, hzs⟩ := linkTransitions_mapActions hothers
      simp only [linkTransitions, linkTransition, List.map_cons, Except.bind_eq_ok]
      exact ⟨_, _, ⟨targets, htargets, guard, hguard, ys, hys, rfl⟩, zs, hzs, rfl⟩

theorem linkOn_mapActions :
    ∀ {entries : List (String × Option (List TransitionConfig))} {xs : List (Transition L)},
      linkOn nodes source entries = .ok xs → ∃ ys, linkOn nodes source (entries.map fun entry =>
        (entry.1, entry.2.map (List.map (.mapActions f)))) = .ok ys
  | [], _, _ => ⟨[], rfl⟩
  | (event, none) :: rest, _, h => by
      simp only [linkOn, Except.bind_eq_ok] at h
      obtain ⟨others, hothers, _⟩ := h
      obtain ⟨zs, hzs⟩ := linkOn_mapActions hothers
      simp only [linkOn, List.map_cons, Option.map_none, Except.bind_eq_ok]
      exact ⟨_, zs, hzs, rfl⟩
  | (event, some ts) :: rest, _, h => by
      simp only [linkOn, Except.bind_eq_ok] at h
      obtain ⟨first, hfirst, others, hothers, _⟩ := h
      obtain ⟨ys, hys⟩ := linkTransitions_mapActions hf hfirst
      obtain ⟨zs, hzs⟩ := linkOn_mapActions hothers
      simp only [linkOn, List.map_cons, Option.map_some, Except.bind_eq_ok]
      exact ⟨_, ys, hys, zs, hzs, rfl⟩

theorem linkAfter_mapActions {id : String} :
    ∀ {entries : List (String × List TransitionConfig)} {xs : List (Transition L)},
      linkAfter nodes source id entries = .ok xs →
        ∃ ys, linkAfter nodes source id (entries.map fun entry =>
          (entry.1, entry.2.map (.mapActions f))) = .ok ys
  | [], _, _ => ⟨[], rfl⟩
  | (key, ts) :: rest, _, h => by
      simp only [linkAfter, Except.bind_eq_ok] at h
      obtain ⟨first, hfirst, others, hothers, _⟩ := h
      obtain ⟨ys, hys⟩ := linkTransitions_mapActions hf hfirst
      obtain ⟨zs, hzs⟩ := linkAfter_mapActions hothers
      simp only [linkAfter, List.map_cons, Except.bind_eq_ok]
      exact ⟨_, ys, hys, zs, hzs, rfl⟩

theorem linkOption_mapActions {event : Descriptor} {delay : Option Delay}
    {ts : Option (List TransitionConfig)} {xs : List (Transition L)}
    (h : linkTransitions nodes source event delay (ts.getD []) = .ok xs) :
    ∃ ys, linkTransitions nodes source event delay
      ((ts.map (List.map (.mapActions f))).getD []) = .ok ys := by
  cases ts with
  | none => exact ⟨[], rfl⟩
  | some ts => exact linkTransitions_mapActions hf h

theorem linkInvoke_mapActions {id : String} :
    ∀ {is : List InvokeConfig} {place : Nat} {xs : List (Transition L)},
      linkInvoke nodes source id place is = .ok xs →
        ∃ ys, linkInvoke nodes source id place (is.map (.mapActions f)) = .ok ys
  | [], _, _, _ => ⟨[], rfl⟩
  | i :: rest, place, _, h => by
      simp only [linkInvoke, Except.bind_eq_ok] at h
      obtain ⟨done, hdone, failed, hfailed, others, hothers, _⟩ := h
      obtain ⟨ys, hys⟩ := linkOption_mapActions hf hdone
      obtain ⟨ys', hys'⟩ := linkOption_mapActions hf hfailed
      obtain ⟨zs, hzs⟩ := linkInvoke_mapActions hothers
      simp only [linkInvoke, List.map_cons, Except.bind_eq_ok]
      exact ⟨_, ys, hys, ys', hys', zs, hzs, rfl⟩

theorem linkNode_mapActions {n linked : StateNode L} {a : StateAttributes}
    {ts : List (Transition L)} (h : linkNode nodes n a = .ok (linked, ts)) :
    ∃ x, linkNode nodes n (a.mapActions f) = .ok x := by
  -- Each part that linked before links again; a list that was absent is absent still.
  simp only [linkNode, Except.bind_eq_ok] at h
  obtain ⟨initial, hinitial, default, hdefault, entry, hentry, exit, hexit, on, hon, after, hafter,
    always, halways, onDone, hdone, invoke, hinvoke, _⟩ := h
  obtain ⟨entry', hentry'⟩ := hf hentry
  obtain ⟨exit', hexit'⟩ := hf hexit
  obtain ⟨on', hon'⟩ : ∃ ys, linkOn nodes n.index ((a.mapActions f).on.getD []) = .ok ys := by
    cases hsome : a.on with
    | none => exact ⟨[], by simp [StateAttributes.mapActions, hsome, linkOn]⟩
    | some entries =>
        simp only [hsome, Option.getD_some] at hon
        simpa [StateAttributes.mapActions, hsome] using linkOn_mapActions hf hon
  obtain ⟨after', hafter'⟩ :
      ∃ ys, linkAfter nodes n.index n.id ((a.mapActions f).after.getD []) = .ok ys := by
    cases hsome : a.after with
    | none => exact ⟨[], by simp [StateAttributes.mapActions, hsome, linkAfter]⟩
    | some entries =>
        simp only [hsome, Option.getD_some] at hafter
        simpa [StateAttributes.mapActions, hsome] using linkAfter_mapActions hf hafter
  obtain ⟨always', halways'⟩ := linkOption_mapActions hf halways
  obtain ⟨onDone', hdone'⟩ := linkOption_mapActions hf hdone
  obtain ⟨invoke', hinvoke'⟩ := linkInvoke_mapActions hf hinvoke
  simp only [linkNode, Except.bind_eq_ok]
  exact ⟨_, initial, hinitial, default, hdefault, entry', hentry', exit', hexit', on', hon',
    after', hafter', always', halways', onDone', hdone', invoke', hinvoke', rfl⟩

theorem linkAll_mapActions :
    ∀ {pairs : List (StateNode L × StateAttributes)}
      {x : List (StateNode L) × List (Transition L)}, linkAll nodes pairs = .ok x →
        ∃ y, linkAll nodes (pairs.map fun p => (p.1, p.2.mapActions f)) = .ok y
  | [], _, _ => ⟨_, rfl⟩
  | (n, a) :: rest, _, h => by
      simp only [linkAll, Except.bind_eq_ok] at h
      obtain ⟨⟨linked, ts⟩, hlinked, others, hothers, _⟩ := h
      obtain ⟨y, hy⟩ := linkNode_mapActions hf hlinked
      obtain ⟨z, hz⟩ := linkAll_mapActions hothers
      simp only [linkAll, List.map_cons, Except.bind_eq_ok]
      exact ⟨_, y, hy, z, hz, rfl⟩

/-- A definition can still be built when its actions are changed. -/
theorem build_mapActions {raw : MachineConfig} {d : Definition L} (h : build raw = .ok d) :
    ∃ d' : Definition L, build (raw.mapActions f) = .ok d' ∧ d'.raw = raw.mapActions f := by
  obtain ⟨context, strict, root⟩ := raw
  have hid : (root.mapActions f).attributes.id = root.attributes.id := by
    obtain ⟨attributes, states⟩ := root
    rw [StateConfig.mapActions_node]
    rfl
  have hnode : ∀ machine, (Outline.toNode (L := L) machine ∘ Outline.mapActions f) =
      Outline.toNode machine := fun _ => rfl
  have hattributes : ((·.attributes) ∘ Outline.mapActions f) =
      (StateAttributes.mapActions f ∘ (·.attributes)) := rfl
  simp only [build, Except.bind_eq_ok] at h
  obtain ⟨_, hcheck, linked, hlinked, _⟩ := h
  obtain ⟨y, hy⟩ := linkAll_mapActions hf hlinked
  simp only [build, MachineConfig.mapActions, hid, StateConfig.layout_mapActions,
    Outline.check_mapActions, List.map_map, hnode, hattributes, Except.bind_eq_ok]
  rw [← List.map_map, List.zip_map_right]
  exact ⟨_, ⟨(), hcheck, y, hy, rfl⟩, rfl⟩

end Definition

/-! ## Which actions are changed -/

namespace ActionConfig

variable {L : Type}

mutual

/-- An action that compiles is still compiled after it was written and read. -/
theorem compile_reread : ∀ (a : ActionConfig) {x : Action L}, compile a = .ok x →
    ∃ y : Action L, compile (reread a) = .ok y
  | .parameterized name params, _, h => by
      rw [reread]
      split
      · exact ⟨_, rfl⟩
      · exact ⟨_, h⟩
  | .choose branches, _, h => by
      simp only [compile, Except.bind_eq_ok] at h
      obtain ⟨_, hbranches, _⟩ := h
      obtain ⟨y, hy⟩ := compileBranches_reread branches hbranches
      simp only [reread, compile, Except.bind_eq_ok]
      exact ⟨_, y, hy, rfl⟩
  | .named _, _, h => ⟨_, h⟩
  | .assign _, _, h => ⟨_, h⟩
  | .raise _ _ _, _, h => ⟨_, h⟩
  | .sendTo _ _ _ _, _, h => ⟨_, h⟩
  | .sendParent _ _ _, _, h => ⟨_, h⟩
  | .log _ _, _, h => ⟨_, h⟩
  | .cancel _, _, h => ⟨_, h⟩
  | .stopChild _, _, h => ⟨_, h⟩
  | .spawnChild _ _ _ _, _, h => ⟨_, h⟩

theorem compileBranches_reread : ∀ (bs : List (BranchConfig ActionConfig))
    {xs : List (Branch (Action L))}, compileBranches bs = .ok xs →
      ∃ ys : List (Branch (Action L)), compileBranches (rereadBranches bs) = .ok ys
  | [], _, h => ⟨_, h⟩
  | ⟨guard, actions⟩ :: rest, _, h => by
      simp only [compileBranches, Except.bind_eq_ok] at h
      obtain ⟨g, hguard, _, hactions, _, hrest, _⟩ := h
      obtain ⟨ys, hys⟩ := compileAll_reread actions hactions
      obtain ⟨zs, hzs⟩ := compileBranches_reread rest hrest
      simp only [rereadBranches, compileBranches, Except.bind_eq_ok]
      exact ⟨_, g, hguard, ys, hys, zs, hzs, rfl⟩

theorem compileAll_reread : ∀ (as : List ActionConfig) {xs : List (Action L)},
    compileAll as = .ok xs → ∃ ys : List (Action L), compileAll (rereadAll as) = .ok ys
  | [], _, h => ⟨_, h⟩
  | a :: rest, _, h => by
      simp only [compileAll, Except.bind_eq_ok] at h
      obtain ⟨_, haction, _, hrest, _⟩ := h
      obtain ⟨y, hy⟩ := compile_reread a haction
      obtain ⟨ys, hys⟩ := compileAll_reread rest hrest
      simp only [rereadAll, compileAll, Except.bind_eq_ok]
      exact ⟨_, y, hy, ys, hys, rfl⟩

end

mutual

/-- Whether an action, or one in a branch of it, is a supplied one called `log` that is written
with fields. -/
def suppliesLog : ActionConfig → Bool
  | .parameterized name _ => name == "log"
  | .choose branches => suppliesLogBranches branches
  | _ => false

def suppliesLogBranches : List (BranchConfig ActionConfig) → Bool
  | [] => false
  | ⟨_, actions⟩ :: rest => suppliesLogAll actions || suppliesLogBranches rest

def suppliesLogAll : List ActionConfig → Bool
  | [] => false
  | a :: rest => suppliesLog a || suppliesLogAll rest

end

mutual

theorem reread_eq_self_iff : ∀ a : ActionConfig, reread a = a ↔ suppliesLog a = false
  | .parameterized name params => by
      by_cases h : name = "log" <;> simp [reread, suppliesLog, h]
  | .choose branches => by
      simp [reread, suppliesLog, rereadBranches_eq_self_iff branches]
  | .named _ => by simp [reread, suppliesLog]
  | .assign _ => by simp [reread, suppliesLog]
  | .raise _ _ _ => by simp [reread, suppliesLog]
  | .sendTo _ _ _ _ => by simp [reread, suppliesLog]
  | .sendParent _ _ _ => by simp [reread, suppliesLog]
  | .log _ _ => by simp [reread, suppliesLog]
  | .cancel _ => by simp [reread, suppliesLog]
  | .stopChild _ => by simp [reread, suppliesLog]
  | .spawnChild _ _ _ _ => by simp [reread, suppliesLog]

theorem rereadBranches_eq_self_iff : ∀ bs : List (BranchConfig ActionConfig),
    rereadBranches bs = bs ↔ suppliesLogBranches bs = false
  | [] => by simp [rereadBranches, suppliesLogBranches]
  | ⟨guard, actions⟩ :: rest => by
      simp [rereadBranches, suppliesLogBranches, rereadAll_eq_self_iff actions,
        rereadBranches_eq_self_iff rest]

theorem rereadAll_eq_self_iff : ∀ as : List ActionConfig,
    rereadAll as = as ↔ suppliesLogAll as = false
  | [] => by simp [rereadAll, suppliesLogAll]
  | a :: rest => by
      simp [rereadAll, suppliesLogAll, reread_eq_self_iff a, rereadAll_eq_self_iff rest]

end

end ActionConfig

theorem map_eq_self {α : Type} {g : α → α} {l : List α} :
    l.map g = l ↔ ∀ x ∈ l, g x = x := by
  simpa using List.map_inj_left (f := g) (g := id) (l := l)

theorem option_map_eq_self {α : Type} {g : α → α} {x : Option α} :
    x.map g = x ↔ ∀ a ∈ x, g a = a := by
  cases x <;> simp

theorem forall_mem_getD {α : Type} {P : α → Prop} {o : Option (List α)} :
    (∀ x ∈ o.getD [], P x) ↔ ∀ l ∈ o, ∀ x ∈ l, P x := by
  cases o <;> simp

/-- All transitions that an invocation is written with. -/
def InvokeConfig.transitions (i : InvokeConfig) : List TransitionConfig :=
  i.onDone.getD [] ++ i.onError.getD []

/-- All transitions that a state is written with. -/
def StateAttributes.transitions (s : StateAttributes) : List TransitionConfig :=
  (s.on.getD []).flatMap (·.2.getD []) ++ s.always.getD [] ++ (s.after.getD []).flatMap (·.2) ++
    s.onDone.getD [] ++ s.invoke.flatMap (·.transitions)

/-- All actions that a state is written with. -/
def StateAttributes.actions (s : StateAttributes) : List ActionConfig :=
  s.entry ++ s.exit ++ s.transitions.flatMap (·.actions)

variable (f : ActionConfig → ActionConfig)

theorem TransitionConfig.mapActions_eq_self_iff (t : TransitionConfig) :
    t.mapActions f = t ↔ ∀ a ∈ t.actions, f a = a := by
  cases t
  simp [mapActions, map_eq_self]

theorem InvokeConfig.mapActions_eq_self_iff (i : InvokeConfig) :
    i.mapActions f = i ↔ ∀ t ∈ i.transitions, t.mapActions f = t := by
  cases i
  simp only [mapActions, transitions, InvokeConfig.mk.injEq, map_eq_self, option_map_eq_self,
    List.forall_mem_append, forall_mem_getD, true_and]

theorem StateAttributes.mapActions_eq_self_iff (s : StateAttributes) :
    s.mapActions f = s ↔ ∀ a ∈ s.actions, f a = a := by
  have hentry : ∀ e : String × Option (List TransitionConfig),
      (e.1, e.2.map (List.map (TransitionConfig.mapActions f))) = e ↔
        ∀ ts ∈ e.2, ∀ t ∈ ts, t.mapActions f = t := by
    simp [Prod.ext_iff, map_eq_self, option_map_eq_self]
  have hafter : ∀ e : String × List TransitionConfig,
      (e.1, e.2.map (TransitionConfig.mapActions f)) = e ↔ ∀ t ∈ e.2, t.mapActions f = t := by
    simp [Prod.ext_iff, map_eq_self]
  cases s
  simp only [mapActions, actions, transitions, StateAttributes.mk.injEq, map_eq_self,
    option_map_eq_self, hentry, hafter, List.forall_mem_append, List.forall_mem_flatMap,
    forall_mem_getD, InvokeConfig.mapActions_eq_self_iff, ← TransitionConfig.mapActions_eq_self_iff,
    true_and, and_true]
  tauto

namespace StateConfig

mutual

/-- All actions that a tree of states is written with. -/
def actions : StateConfig → List ActionConfig
  | .node attributes none => attributes.actions
  | .node attributes (some states) => attributes.actions ++ actionsAll states

def actionsAll : List (String × StateConfig) → List ActionConfig
  | [] => []
  | (_, state) :: rest => actions state ++ actionsAll rest

end

mutual

theorem mapActions_eq_self_iff : ∀ c : StateConfig,
    mapActions f c = c ↔ ∀ a ∈ c.actions, f a = a
  | .node attributes none => by
      simp [mapActions, actions, StateAttributes.mapActions_eq_self_iff]
  | .node attributes (some states) => by
      rw [mapActions, actions, List.forall_mem_append, ← mapActionsAll_eq_self_iff states,
        ← StateAttributes.mapActions_eq_self_iff]
      simp

theorem mapActionsAll_eq_self_iff : ∀ states : List (String × StateConfig),
    mapActionsAll f states = states ↔ ∀ a ∈ actionsAll states, f a = a
  | [] => by simp [mapActionsAll, actionsAll]
  | (key, state) :: rest => by
      rw [mapActionsAll, actionsAll, List.forall_mem_append, ← mapActionsAll_eq_self_iff rest,
        ← mapActions_eq_self_iff state]
      simp

end

end StateConfig

/-- All actions that a definition is written with. -/
def MachineConfig.actions (m : MachineConfig) : List ActionConfig := m.root.actions

/-- Changing actions leaves a definition as it is exactly if it leaves each of its actions. -/
theorem MachineConfig.mapActions_eq_self_iff (m : MachineConfig) :
    m.mapActions f = m ↔ ∀ a ∈ m.actions, f a = a := by
  cases m
  simp [mapActions, actions, StateConfig.mapActions_eq_self_iff]

namespace MachineConfig

/-- No action is a supplied one called `log` that is written with fields. -/
def Steady (m : MachineConfig) : Prop := ∀ a ∈ m.actions, a.suppliesLog = false

instance (m : MachineConfig) : Decidable m.Steady :=
  inferInstanceAs (Decidable (∀ a ∈ m.actions, _))

theorem reread_eq_self_iff (m : MachineConfig) : m.reread = m ↔ m.Steady := by
  simp only [reread, mapActions_eq_self_iff, ActionConfig.reread_eq_self_iff, Steady]

end MachineConfig

/-! ## Definitions -/

namespace Definition

variable {L : Type}

theorem keepsCompiling_reread : KeepsCompiling L ActionConfig.reread := fun {as} _ h => by
  rw [← ActionConfig.rereadAll_eq_map]
  exact ActionConfig.compileAll_reread as h

theorem raw_of_build {raw : MachineConfig} {d : Definition L} (h : build raw = .ok d) :
    d.raw = raw := by
  simp only [build, Except.bind_eq_ok] at h
  obtain ⟨_, _, _, _, h⟩ := h
  cases h
  rfl

theorem ofJson_eq_ok {j : Json} {d : Definition L} :
    ofJson j = .ok d ↔ MachineConfig.ofJson? j = some d.raw ∧ build d.raw = .ok d := by
  unfold ofJson
  constructor
  · intro h
    split at h
    · rename_i raw hraw
      rw [raw_of_build h]
      exact ⟨hraw, h⟩
    · cases h
  · rintro ⟨hraw, hbuild⟩
    rw [hraw]
    exact hbuild

/-- An accepted definition is written as a document that is accepted again. -/
theorem ofJson_toJson {j : Json} {d : Definition L} (h : ofJson j = .ok d) :
    ∃ d' : Definition L, ofJson d.toJson = .ok d' ∧ d'.raw = d.raw.reread := by
  obtain ⟨hraw, hbuild⟩ := ofJson_eq_ok.mp h
  obtain ⟨d', hbuild', hraw'⟩ := build_mapActions keepsCompiling_reread hbuild
  refine ⟨d', ofJson_eq_ok.mpr ⟨?_, ?_⟩, hraw'⟩
  · rw [hraw']
    exact MachineConfig.ofJson?_toJson hraw
  · rwa [hraw']

theorem ofJson_toJson_self {j : Json} {d : Definition L} (h : ofJson j = .ok d)
    (hsteady : d.raw.Steady) : ofJson d.toJson = .ok d := by
  obtain ⟨hraw, hbuild⟩ := ofJson_eq_ok.mp h
  have hread := MachineConfig.ofJson?_toJson hraw
  rw [d.raw.reread_eq_self_iff.mpr hsteady] at hread
  exact ofJson_eq_ok.mpr ⟨hread, hbuild⟩

/-- An accepted definition is written as a document that is accepted again, and read back from it
as it is exactly if no supplied action called `log` is written with fields. Among the definitions
that come back, what is written tells them apart. -/
theorem toJson_reread {j : Json} {d : Definition L} (h : ofJson j = .ok d) :
    (∃ d' : Definition L, ofJson d.toJson = .ok d' ∧ d'.raw = d.raw.reread ∧
      (d' = d ↔ d.raw.Steady)) ∧
    ∀ (j₂ : Json) (d₂ : Definition L), ofJson j₂ = .ok d₂ → d.raw.Steady → d₂.raw.Steady →
      d₂.toJson = d.toJson → d₂ = d := by
  constructor
  · obtain ⟨d', hd', hraw⟩ := ofJson_toJson h
    refine ⟨d', hd', hraw, fun heq => ?_, fun hsteady => ?_⟩
    · rw [heq] at hraw
      exact d.raw.reread_eq_self_iff.mp hraw.symm
    · rw [ofJson_toJson_self h hsteady] at hd'
      exact (Except.ok.inj hd').symm
  · intro j₂ d₂ h₂ hsteady hsteady₂ hsame
    have hback := ofJson_toJson_self h hsteady
    rw [← hsame, ofJson_toJson_self h₂ hsteady₂] at hback
    exact Except.ok.inj hback

theorem ofJson_of_read {j : Json} {raw : MachineConfig}
    (hread : MachineConfig.ofJson? j = some raw)
    (hbuild : (build (L := L) raw).isOk = true) :
    ofJson j = .ok ((build (L := L) raw).toOption.getD default) := by
  rw [ofJson, hread]
  exact ok_of_isOk hbuild

/-- A watch that is wound up, ticks after a second and advances unless it is stopped. -/
def watchJson : Json :=
  .obj [("id", .str "watch"),
    ("entry", .arr [.str "wind",
      .obj [("type", .str "raise"), ("event", .str "TICK"), ("delay", .nat 1000)]]),
    ("on", .obj [("TICK", .obj [("guard", .obj [("not", .str "stopped")]),
      ("actions", .str "advance")]), ("STOP", .null)])]

/-- What the watch is read as. -/
def watchConfig : MachineConfig where
  root := .node {
    id := some "watch"
    entry := [.named "wind", .raise (.name "TICK") (some (.ms 1000)) none]
    on := some [
      ("TICK", some [{ guard := some (.not (.named "stopped")), actions := [.named "advance"] }]),
      ("STOP", none)] } none

def watch : Definition Unit := (build watchConfig).toOption.getD default

theorem watch_reread : ofJson watchJson = .ok watch ∧ watch.raw.Steady ∧
    ∃ d', ofJson watch.toJson = .ok d' ∧ d' = watch := by
  have hread : MachineConfig.ofJson? watchJson = some watchConfig := by cbv
  have hjson : ofJson watchJson = .ok watch := ofJson_of_read hread rfl
  have hsteady : watchConfig.Steady := by decide
  obtain ⟨d', hd', -, hiff⟩ := (toJson_reread hjson).1
  exact ⟨hjson, hsteady, d', hd', hiff.mpr hsteady⟩

/-- A supplied action called `log`: the built-in cannot have that label. -/
def diaryJson : Json :=
  .obj [("entry", .obj [("type", .str "log"), ("label", .nat 5),
    ("params", .obj [("page", .nat 1)])])]

/-- The same without parameters. -/
def blankJson : Json := .obj [("entry", .obj [("type", .str "log"), ("label", .nat 5)])]

/-- The built-in action of that name. -/
def plainJson : Json := .obj [("entry", .obj [("type", .str "log")])]

def entryConfig (a : ActionConfig) : MachineConfig where
  root := .node { entry := [a] } none

/-- A machine of one state, with one entry action. -/
def entering (a : ActionConfig) : Definition Unit :=
  (build (entryConfig a)).toOption.getD default

/-- A supplied action called `log` is written as a record that is read as the built-in, without its
parameters; and two definitions with different actions can be written the same. -/
theorem diary_rewritten :
    (¬ ∀ (j : Json) (d : Definition Unit), ofJson j = .ok d → ofJson d.toJson = .ok d) ∧
    ∃ diary blank plain : Definition Unit,
      ofJson diaryJson = .ok diary ∧ ofJson blankJson = .ok blank ∧ ofJson plainJson = .ok plain ∧
      ofJson diary.toJson = .ok plain ∧ blank.toJson = plain.toJson ∧
      (diary.node 0).entry = [.named "log" (.obj [("page", .nat 1)])] ∧
      (blank.node 0).entry = [.named "log" .null] ∧ (plain.node 0).entry = [.log none none] := by
  have hdiary : ofJson diaryJson =
      .ok (entering (.parameterized "log" (.obj [("page", .nat 1)]))) := ofJson_of_read (by cbv) rfl
  have hblank : ofJson blankJson = .ok (entering (.parameterized "log" .null)) :=
    ofJson_of_read (by cbv) rfl
  have hplain : ofJson plainJson = .ok (entering (.log none none)) := ofJson_of_read (by cbv) rfl
  obtain ⟨d', hd', hraw⟩ := ofJson_toJson hdiary
  have hd : d' = entering (.log none none) := by
    have hbuild := (ofJson_eq_ok.mp hd').2
    rw [hraw] at hbuild
    have hreread : (entering (.parameterized "log" (.obj [("page", .nat 1)]))).raw.reread =
        entryConfig (.log none none) := rfl
    rw [hreread] at hbuild
    exact (congrArg (·.toOption.getD default) hbuild).symm
  rw [hd] at hd'
  refine ⟨fun hall => ?_, _, _, _, hdiary, hblank, hplain, hd', rfl, rfl, rfl, rfl⟩
  have hsame := Except.ok.inj ((hall _ _ hdiary).symm.trans hd')
  have hentry : [Action.named "log" (.obj [("page", .nat 1)])] = [Action.log none none] :=
    congrArg (fun d : Definition Unit => (d.node 0).entry) hsame
  cases hentry

end Definition

end Statechart
