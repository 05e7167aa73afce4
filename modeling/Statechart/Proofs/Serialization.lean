import Statechart.Proofs.Rereading

/-!
# Definitions are written and read again

From actions to whole definitions. Everything but actions comes back as it was read: every field is
written under a name of its own, fields that are left out have the value that reading gives them, and
lists come back as lists. `MachineConfig.ofJson?_toJson` puts that together: a definition that was
read and is written is read with every action reread (`MachineConfig.reread`).
-/

namespace Statechart

open Json

/-! ## Changing all actions -/

/-- The transition with every action changed; so for all that transitions are part of. -/
def TransitionConfig.mapActions (f : ActionConfig → ActionConfig) (t : TransitionConfig) :
    TransitionConfig :=
  { t with actions := t.actions.map f }

def InvokeConfig.mapActions (f : ActionConfig → ActionConfig) (i : InvokeConfig) : InvokeConfig :=
  { i with
    onDone := i.onDone.map (List.map (TransitionConfig.mapActions f))
    onError := i.onError.map (List.map (TransitionConfig.mapActions f)) }

def StateAttributes.mapActions (f : ActionConfig → ActionConfig) (s : StateAttributes) :
    StateAttributes :=
  { s with
    on := s.on.map (List.map fun entry =>
      (entry.1, entry.2.map (List.map (TransitionConfig.mapActions f))))
    always := s.always.map (List.map (TransitionConfig.mapActions f))
    after := s.after.map (List.map fun entry =>
      (entry.1, entry.2.map (TransitionConfig.mapActions f)))
    onDone := s.onDone.map (List.map (TransitionConfig.mapActions f))
    entry := s.entry.map f
    exit := s.exit.map f
    invoke := s.invoke.map (InvokeConfig.mapActions f) }

namespace StateConfig

mutual

/-- The tree with every action changed. -/
def mapActions (f : ActionConfig → ActionConfig) : StateConfig → StateConfig
  | .node attributes none => .node (attributes.mapActions f) none
  | .node attributes (some states) =>
      .node (attributes.mapActions f) (some (mapActionsAll f states))

def mapActionsAll (f : ActionConfig → ActionConfig) :
    List (String × StateConfig) → List (String × StateConfig)
  | [] => []
  | (key, state) :: rest => (key, mapActions f state) :: mapActionsAll f rest

end

theorem mapActionsAll_eq_map (f : ActionConfig → ActionConfig)
    (states : List (String × StateConfig)) :
    mapActionsAll f states = states.map fun entry => (entry.1, mapActions f entry.2) := by
  induction states with
  | nil => rfl
  | cons entry rest ih => rw [mapActionsAll, ih, List.map_cons]

end StateConfig

def MachineConfig.mapActions (f : ActionConfig → ActionConfig) (m : MachineConfig) :
    MachineConfig :=
  { m with root := m.root.mapActions f }

/-! ## Transitions and invocations -/

namespace TransitionConfig

/-- What a written transition is read as. -/
def reread : TransitionConfig → TransitionConfig := mapActions ActionConfig.reread

theorem ofJson?_toJson {j : Json} {t : TransitionConfig} (h : ofJson? j = some t) :
    ofJson? t.toJson = some t.reread := by
  simp only [ofJson?, Option.bind_eq_bind, Option.bind_eq_some_iff, Option.some.injEq] at h
  obtain ⟨_, _, target, htarget, guard, hguard, actions, hactions, reenter, _, description, _,
    rfl⟩ := h
  have hwrites : Writes ["target", "guard", "actions", "reenter", "description"] _ :=
    ((((Writes.listField "target" .str target).append
      (.optionalField "guard" GuardConfig.toJson guard)).append
      (.listField "actions" ActionConfig.toJson actions)).append
      (.flag "reenter" (.bool true) reenter)).append
      (.optionalField "description" .str description)
  rw [toJson, ofJson?, record?_obj hwrites (by decide)]
  simp [field?_flag_of_ne, defaulted?_strings, GuardConfig.optional?_toJson hguard,
    ActionConfig.defaulted?_toJson hactions, defaulted?_flag, optional?_str, reread, mapActions]

theorem ofJson?_toTarget (target : String) :
    ofJson? (toTarget target).toJson = some (toTarget target).reread := by
  have hread : ofJson? (.obj [("target", .str target)]) = some (toTarget target) := by
    simp [ofJson?, record?, objectRecord?, repeats, field?, oneOrMany?, array?, asStr?, optional?,
      toTarget]
  exact ofJson?_toJson hread

theorem ofJson?_of_entry? {j : Json} {t : TransitionConfig} (h : entry? j = some t) :
    ofJson? t.toJson = some t.reread := by
  unfold entry? at h
  split at h
  · cases h
    exact ofJson?_toTarget _
  · exact ofJson?_toJson h

/-- A written transition of a list is not taken for a target. -/
theorem entry?_toJson (t : TransitionConfig) : entry? t.toJson = ofJson? t.toJson := rfl

theorem ofJson?_of_list? {j : Json} {ts : List TransitionConfig} (h : list? j = some ts) :
    ∀ t ∈ ts, ofJson? t.toJson = some t.reread := by
  unfold list? at h
  split at h
  · cases h
    simpa using ofJson?_toTarget _
  · obtain ⟨t, ht, rfl⟩ := Option.map_eq_some_iff.mp h
    simpa using ofJson?_toJson ht
  · intro t ht
    obtain ⟨_, hread⟩ := exists_of_readAll? h t ht
    exact ofJson?_of_entry? hread
  · cases h

theorem list?_listToJson {j : Json} {ts : List TransitionConfig} (h : list? j = some ts) :
    list? (listToJson ts) = some (ts.map reread) := by
  rw [listToJson, list?]
  exact readAll?_map fun t ht => by rw [entry?_toJson, ofJson?_of_list? h t ht]

theorem optional?_listToJson {field : Option Json} {x : Option (List TransitionConfig)}
    (h : optional? list? field = some x) :
    optional? list? (x.map listToJson) = some (x.map (List.map reread)) :=
  optional?_map fun ts hts => by
    obtain ⟨_, -, hread⟩ := exists_of_optional? h ts hts
    exact ⟨by simp [listToJson], list?_listToJson hread⟩

end TransitionConfig

namespace InvokeConfig

/-- What a written invocation is read as. -/
def reread : InvokeConfig → InvokeConfig := mapActions ActionConfig.reread

theorem ofJson?_toJson {j : Json} {i : InvokeConfig} (h : ofJson? j = some i) :
    ofJson? i.toJson = some i.reread := by
  simp only [ofJson?, Option.bind_eq_bind, Option.bind_eq_some_iff, Option.some.injEq] at h
  obtain ⟨_, _, id, _, source, _, systemId, _, input, hinput, onDone, hdone, onError, herror,
    rfl⟩ := h
  have hwrites : Writes ["id", "src", "systemId", "input", "onDone", "onError"] _ :=
    (((((Writes.optionalField "id" .str id).append (.field "src" (.str source))).append
      (.optionalField "systemId" .str systemId)).append (.optionalField "input" (·) input)).append
      (.optionalField "onDone" TransitionConfig.listToJson onDone)).append
      (.optionalField "onError" TransitionConfig.listToJson onError)
  rw [toJson, ofJson?, record?_obj hwrites (by decide)]
  simp [field?, asStr?, optional?_str, optional?_any hinput,
    TransitionConfig.optional?_listToJson hdone, TransitionConfig.optional?_listToJson herror,
    reread, mapActions, TransitionConfig.reread]

end InvokeConfig

/-! ## States -/

namespace StateAttributes

/-- What the written attributes of a state are read as. -/
def reread : StateAttributes → StateAttributes := mapActions ActionConfig.reread

theorem optional?_on {field : Option Json}
    {x : Option (List (String × Option (List TransitionConfig)))}
    (h : optional? (entries? forbiddenOr?) field = some x) :
    optional? (entries? forbiddenOr?)
        (x.map (entriesToJson (Json.ofOption TransitionConfig.listToJson))) =
      some (x.map (List.map fun entry =>
        (entry.1, entry.2.map (List.map TransitionConfig.reread)))) := by
  refine optional?_map fun entries hentries => ⟨by simp [entriesToJson], ?_⟩
  obtain ⟨_, -, hread⟩ := exists_of_optional? h entries hentries
  obtain ⟨hkeys, hall⟩ := entries?_spec hread
  refine entries?_entriesToJson (f := Option.map (List.map TransitionConfig.reread)) hkeys
    fun entry hentry => ?_
  obtain ⟨j, hj⟩ := hall entry hentry
  unfold forbiddenOr? at hj
  split at hj
  · rw [← Option.some.inj hj]
    rfl
  · obtain ⟨ts, hts, heq⟩ := Option.map_eq_some_iff.mp hj
    have := TransitionConfig.list?_listToJson hts
    rw [← heq]
    simp [Json.ofOption, forbiddenOr?, TransitionConfig.listToJson] at this ⊢
    exact this

theorem optional?_after {field : Option Json} {x : Option (List (String × List TransitionConfig))}
    (h : optional? (entries? TransitionConfig.list?) field = some x) :
    optional? (entries? TransitionConfig.list?)
        (x.map (entriesToJson TransitionConfig.listToJson)) =
      some (x.map (List.map fun entry => (entry.1, entry.2.map TransitionConfig.reread))) := by
  refine optional?_map fun entries hentries => ⟨by simp [entriesToJson], ?_⟩
  obtain ⟨_, -, hread⟩ := exists_of_optional? h entries hentries
  obtain ⟨hkeys, hall⟩ := entries?_spec hread
  refine entries?_entriesToJson (f := List.map TransitionConfig.reread) hkeys
    fun entry hentry => ?_
  obtain ⟨j, hj⟩ := hall entry hentry
  exact TransitionConfig.list?_listToJson hj

theorem optional?_kind (x : Option StateKind) :
    optional? (name? true StateKind.ofText?) (x.map fun k => .str k.text) = some x := by
  cases x with
  | none => rfl
  | some k => simp [optional?, name?]

theorem optional?_history (x : Option HistoryKind) :
    optional? (name? true HistoryKind.ofText?) (x.map fun k => .str k.text) = some x := by
  cases x with
  | none => rfl
  | some k => simp [optional?, name?]

theorem defaulted?_invoke {field : Option Json} {key : String} {is : List InvokeConfig}
    (h : defaulted? [] (oneOrMany? InvokeConfig.ofJson?) field = some is) :
    defaulted? [] (oneOrMany? InvokeConfig.ofJson?)
      (field? key (listField key InvokeConfig.toJson is)) = some (is.map InvokeConfig.reread) :=
  defaulted?_listField fun i hi => by
    obtain ⟨_, hread⟩ := exists_of_list h i hi
    exact InvokeConfig.ofJson?_toJson hread

/-- A state is written with the fields of a state, in their order. -/
theorem writes_toFields (s : StateAttributes) (states : Option Json) :
    Writes StateConfig.fieldNames (s.toFields states) :=
  have hhead : Writes ["id", "type", "initial", "states"] _ :=
    (((Writes.optionalField "id" .str s.id).append
      (.optionalField "type" (fun k => .str (StateKind.text k)) s.kind)).append
      (.optionalField "initial" .str s.initial)).append (.optionalField "states" (·) states)
  have htransitions : Writes ["id", "type", "initial", "states", "on", "always", "after",
      "onDone"] _ :=
    (((hhead.append
      (.optionalField "on" (entriesToJson (Json.ofOption TransitionConfig.listToJson)) s.on)).append
      (.optionalField "always" TransitionConfig.listToJson s.always)).append
      (.optionalField "after" (entriesToJson TransitionConfig.listToJson) s.after)).append
      (.optionalField "onDone" TransitionConfig.listToJson s.onDone)
  ((((((((htransitions.append
    (.listField "entry" ActionConfig.toJson s.entry)).append
    (.listField "exit" ActionConfig.toJson s.exit)).append
    (.listField "invoke" InvokeConfig.toJson s.invoke)).append
    (.listField "tags" .str s.tags)).append
    (.optionalField "output" (·) s.output)).append
    (.optionalField "history" (fun k => .str (HistoryKind.text k)) s.history)).append
    (.listField "target" .str s.target)).append
    (.optionalField "description" .str s.description)).append
    (.optionalField "meta" (·) s.metadata)

/-- Written attributes are read from whatever has their fields. -/
theorem ofFields?_toFields {field field' : String → Option Json} {s : StateAttributes}
    (h : ofFields? field = some s) (states : Option Json)
    (hfield : ∀ key ∈ StateConfig.fieldNames, field' key = field? key (s.toFields states)) :
    ofFields? field' = some s.reread := by
  obtain ⟨id, -, h⟩ := Option.bind_eq_some_iff.mp h
  obtain ⟨kind, -, h⟩ := Option.bind_eq_some_iff.mp h
  obtain ⟨initial, -, h⟩ := Option.bind_eq_some_iff.mp h
  obtain ⟨on, hon, h⟩ := Option.bind_eq_some_iff.mp h
  obtain ⟨always, halways, h⟩ := Option.bind_eq_some_iff.mp h
  obtain ⟨after, hafter, h⟩ := Option.bind_eq_some_iff.mp h
  obtain ⟨onDone, hdone, h⟩ := Option.bind_eq_some_iff.mp h
  obtain ⟨entry, hentry, h⟩ := Option.bind_eq_some_iff.mp h
  obtain ⟨exit, hexit, h⟩ := Option.bind_eq_some_iff.mp h
  obtain ⟨invoke, hinvoke, h⟩ := Option.bind_eq_some_iff.mp h
  obtain ⟨tags, -, h⟩ := Option.bind_eq_some_iff.mp h
  obtain ⟨output, houtput, h⟩ := Option.bind_eq_some_iff.mp h
  obtain ⟨history, -, h⟩ := Option.bind_eq_some_iff.mp h
  obtain ⟨target, -, h⟩ := Option.bind_eq_some_iff.mp h
  obtain ⟨description, -, h⟩ := Option.bind_eq_some_iff.mp h
  obtain ⟨metadata, hmetadata, h⟩ := Option.bind_eq_some_iff.mp h
  obtain rfl := Option.some.inj h
  simp only [StateConfig.fieldNames, List.forall_mem_cons] at hfield
  obtain ⟨hid, hkind, hinitial, -, hon', halways', hafter', hdone', hentry', hexit', hinvoke',
    htags, houtput', hhistory, htarget, hdescription, hmetadata', -⟩ := hfield
  rw [ofFields?, hid, hkind, hinitial, hon', halways', hafter', hdone', hentry', hexit', hinvoke',
    htags, houtput', hhistory, htarget, hdescription, hmetadata']
  simp [toFields, optional?_str, optional?_kind, optional?_on hon,
    TransitionConfig.optional?_listToJson halways, optional?_after hafter,
    TransitionConfig.optional?_listToJson hdone, ActionConfig.defaulted?_toJson hentry,
    ActionConfig.defaulted?_toJson hexit, defaulted?_invoke hinvoke, defaulted?_strings,
    optional?_any houtput, optional?_history, optional?_any hmetadata, reread, mapActions,
    TransitionConfig.reread, InvokeConfig.reread]

end StateAttributes

namespace StateConfig

/-- What a written tree of states is read as. -/
def reread : StateConfig → StateConfig := mapActions ActionConfig.reread

theorem statesToFields_eq_map (states : List (String × StateConfig)) :
    statesToFields states = states.map fun entry => (entry.1, .obj (toFields entry.2)) := by
  induction states with
  | nil => rfl
  | cons entry rest ih => rw [statesToFields, ih, List.map_cons]

/-- The child states as an object. -/
def statesToJson (states : List (String × StateConfig)) : Json :=
  entriesToJson (fun state => .obj (toFields state)) states

theorem toFields_node (attributes : StateAttributes)
    (states : Option (List (String × StateConfig))) :
    toFields (.node attributes states) = attributes.toFields (states.map statesToJson) := by
  cases states with
  | none => rfl
  | some states => rw [toFields, statesToFields_eq_map, Option.map_some, statesToJson, entriesToJson]

theorem mapActions_node (f : ActionConfig → ActionConfig) (attributes : StateAttributes)
    (states : Option (List (String × StateConfig))) :
    mapActions f (.node attributes states) = .node (attributes.mapActions f)
      (states.map (List.map fun entry => (entry.1, mapActions f entry.2))) := by
  cases states with
  | none => rfl
  | some states => rw [mapActions, mapActionsAll_eq_map, Option.map_some]

theorem field?_states (attributes : StateAttributes) (states : Option Json) :
    field? "states" (attributes.toFields states) = states := by
  simp [StateAttributes.toFields]

theorem depth_states_lt (attributes : StateAttributes) (states : List (String × StateConfig)) :
    (statesToJson states).depth <
      (Json.obj (attributes.toFields (some (statesToJson states)))).depth := by
  have hmem : ("states", statesToJson states) ∈
      attributes.toFields (some (statesToJson states)) := by
    simp [StateAttributes.toFields, optionalField]
  have hle : (statesToJson states).depth ≤ _ := depth_le_of_mem_fields hmem
  rw [depth]
  omega

theorem depth_state_lt {entry : String × StateConfig} {states : List (String × StateConfig)}
    (h : entry ∈ states) : (Json.obj entry.2.toFields).depth < (statesToJson states).depth := by
  have hle : (Json.obj entry.2.toFields).depth ≤ _ := depth_le_of_mem_fields
    (List.mem_map_of_mem (f := fun x : String × StateConfig => (x.1, Json.obj (toFields x.2))) h)
  rw [statesToJson, entriesToJson, depth]
  exact Nat.lt_succ_of_le hle

/-- Written child states are read if each of them is. -/
theorem optional?_states {read read' : Json → Option StateConfig} {field : Option Json}
    {x : Option (List (String × StateConfig))} (h : optional? (entries? read) field = some x)
    (hread : ∀ states ∈ x, ∀ entry ∈ states, ∀ j, read j = some entry.2 →
      read' (.obj entry.2.toFields) = some entry.2.reread) :
    optional? (entries? read') (x.map statesToJson) =
      some (x.map (List.map fun entry => (entry.1, entry.2.reread))) := by
  refine optional?_map fun states hstates => ⟨by simp [statesToJson, entriesToJson], ?_⟩
  obtain ⟨_, -, hentries⟩ := exists_of_optional? h states hstates
  obtain ⟨hkeys, hall⟩ := entries?_spec hentries
  refine entries?_entriesToJson hkeys fun entry hentry => ?_
  obtain ⟨j, hj⟩ := hall entry hentry
  exact hread states hstates entry hentry j hj

/-- A written state is read as what it is reread as, if it is read as deeply as it is nested. -/
theorem read?_toFields : ∀ {fuel : Nat} {j : Json} {c : StateConfig}, read? fuel j = some c →
    ∀ fuel', (Json.obj c.toFields).depth < fuel' →
      read? fuel' (.obj c.toFields) = some c.reread
  | 0, _, _, h, _, _ => by cases h
  | fuel + 1, j, c, h, fuel', hf => by
      simp only [read?, Option.bind_eq_bind, Option.bind_eq_some_iff, Option.some.injEq] at h
      obtain ⟨_, _, attributes, hattributes, states, hstates, rfl⟩ := h
      obtain ⟨fuel', rfl⟩ : ∃ n, fuel' = n + 1 := ⟨fuel' - 1, by omega⟩
      rw [toFields_node] at hf ⊢
      have hread : ∀ x ∈ states, ∀ entry ∈ x, ∀ j, read? fuel j = some entry.2 →
          read? fuel' (.obj entry.2.toFields) = some entry.2.reread := by
        intro x hx entry hentry j hj
        refine read?_toFields hj _ ?_
        cases hx
        have := depth_states_lt attributes x
        have := depth_state_lt hentry
        rw [Option.map_some] at hf
        omega
      rw [read?, record?_obj (attributes.writes_toFields _) (by decide)]
      simp [StateAttributes.ofFields?_toFields hattributes _ fun _ _ => rfl, field?_states,
        optional?_states hstates hread, reread, mapActions_node, StateAttributes.reread]

end StateConfig

/-! ## Definitions -/

namespace MachineConfig

/-- What a written definition is read as. -/
def reread : MachineConfig → MachineConfig := mapActions ActionConfig.reread

/-- The fields of a written definition. -/
def fields (m : MachineConfig) : List (String × Json) :=
  nonNullField "context" m.context ++ (if m.strict then [("strict", .bool true)] else []) ++
    m.root.toFields

theorem toJson_eq_fields (m : MachineConfig) : m.toJson = .obj m.fields := rfl

theorem writes_fields (m : MachineConfig) :
    Writes ("context" :: "strict" :: StateConfig.fieldNames) m.fields := by
  obtain ⟨context, strict, attributes, states⟩ := m
  have hroot := attributes.writes_toFields (states.map StateConfig.statesToJson)
  rw [← StateConfig.toFields_node] at hroot
  exact ((Writes.nonNullField "context" context).append
    (.flag "strict" (.bool true) strict)).append hroot

/-- The fields of the root are found among those of the definition. -/
theorem field?_fields (m : MachineConfig) {key : String} (hkey : key ∈ StateConfig.fieldNames) :
    field? key m.fields = field? key m.root.toFields := by
  have hcontext : "context" ≠ key := by
    rintro rfl
    exact absurd hkey (by decide)
  have hstrict : "strict" ≠ key := by
    rintro rfl
    exact absurd hkey (by decide)
  simp [fields, field?_nonNullField_of_ne hcontext, field?_flag_of_ne hstrict]

theorem field?_root_eq_none {m : MachineConfig} {key : String}
    (hkey : key ∉ StateConfig.fieldNames) : field? key m.root.toFields = none := by
  obtain ⟨_, _, attributes, states⟩ := m
  rw [StateConfig.toFields_node]
  exact (attributes.writes_toFields _).field?_eq_none hkey

theorem field?_context (m : MachineConfig) :
    field? "context" m.fields = field? "context" (nonNullField "context" m.context) := by
  rw [fields, field?_append, field?_append, field?_root_eq_none (by decide),
    field?_flag_of_ne (by decide)]
  simp

theorem field?_strict (m : MachineConfig) :
    field? "strict" m.fields =
      field? "strict" (if m.strict then [("strict", .bool true)] else []) := by
  rw [fields, field?_append, field?_append, field?_root_eq_none (by decide),
    field?_nonNullField_of_ne (by decide)]
  simp

/-- A definition that was read and is written is read as what it is reread as. -/
theorem ofJson?_toJson {j : Json} {m : MachineConfig} (h : ofJson? j = some m) :
    ofJson? m.toJson = some m.reread := by
  simp only [ofJson?, Option.bind_eq_bind, Option.bind_eq_some_iff, Option.some.injEq] at h
  obtain ⟨_, _, context, hcontext, strict, _, attributes, hattributes, states, hstates, rfl⟩ := h
  generalize hm : ({ context, strict, root := .node attributes states } : MachineConfig) = m
  have hroot : m.root.toFields =
      attributes.toFields (states.map StateConfig.statesToJson) := by
    rw [← hm, StateConfig.toFields_node]
  have hfield : ∀ key ∈ StateConfig.fieldNames, field? key m.fields =
      field? key (attributes.toFields (states.map StateConfig.statesToJson)) :=
    fun key hkey => by rw [field?_fields m hkey, hroot]
  have hread : ∀ x ∈ states, ∀ entry ∈ x, ∀ i, StateConfig.read? (j.depth + 1) i = some entry.2 →
      StateConfig.read? ((Json.obj m.fields).depth + 1) (.obj entry.2.toFields) =
        some entry.2.reread := by
    intro x hx entry hentry i hi
    refine StateConfig.read?_toFields hi _ ?_
    cases hx
    have hstate := StateConfig.depth_state_lt hentry
    have hmem : ("states", StateConfig.statesToJson x) ∈ m.fields := by
      simp [fields, hroot, StateAttributes.toFields, optionalField]
    have hle : (StateConfig.statesToJson x).depth ≤ _ := depth_le_of_mem_fields hmem
    have hobj : (Json.obj m.fields).depth = depthFields m.fields + 1 := by rw [depth]
    omega
  have hnull : defaulted? .null any? (field? "context" m.fields) = some context := by
    rw [field?_context, ← hm]
    exact defaulted?_nonNullField hcontext
  have hflag : defaulted? false asBool? (field? "strict" m.fields) = some strict := by
    rw [field?_strict, ← hm]
    exact defaulted?_flag "strict" strict
  rw [toJson_eq_fields, ofJson?, objectRecord?_obj m.writes_fields (by decide)]
  simp only [Option.bind_eq_bind, Option.bind_some, hnull, hflag,
    StateAttributes.ofFields?_toFields hattributes _ hfield,
    hfield "states" (by decide), StateConfig.field?_states,
    StateConfig.optional?_states hstates hread]
  rw [← hm, reread, mapActions, StateConfig.mapActions_node]
  rfl

end MachineConfig

end Statechart
