import Statechart.Proofs.Fields

/-!
# Written definitions are read again

What becomes of a definition that was read, is written and is read again. Guards, events and delays
come back as they are. So do actions, except for one: a supplied action called `log` whose
parameters are written as fields of its own comes back as the built-in of that name
(`ActionConfig.reread`), because the built-in has no field that must be there.
`MachineConfig.ofJson?_toJson` carries that through transitions, invocations and states.
-/

namespace Statechart

open Json

/-! ## Guards -/

namespace GuardConfig

/-- The guards that reading yields: no parameters repeat a field. -/
inductive Settled : GuardConfig → Prop
  | named (name : String) : Settled (.named name)
  | expr (text : String) : Settled (.expr text)
  | not {inner : GuardConfig} : Settled inner → Settled (.not inner)
  | and {guards : List GuardConfig} : (∀ g ∈ guards, Settled g) → Settled (.and guards)
  | or {guards : List GuardConfig} : (∀ g ∈ guards, Settled g) → Settled (.or guards)
  | stateIn (id : String) : Settled (.stateIn id)
  | parameterized (name : String) {params : Json} {field : Option Json} :
      defaulted? .null any? field = some params → Settled (.parameterized name params)

theorem settled_of_read? : ∀ {fuel : Nat} {j : Json} {g : GuardConfig},
    read? fuel j = some g → g.Settled
  | 0, _, _, h => by simp [read?] at h
  | fuel + 1, j, g, h => by
      have hall : ∀ {field : Option Json} {gs : List GuardConfig},
          required? (array? (read? fuel)) field = some gs → ∀ g ∈ gs, g.Settled := by
        intro field gs hgs g hg
        obtain ⟨_, harray⟩ := exists_of_required? hgs
        obtain ⟨_, hread⟩ := exists_of_array? harray g hg
        exact settled_of_read? hread
      unfold read? at h
      split at h
      · cases h
        exact .named _
      · simp only [Option.orElse_eq_orElse, Option.orElse_eq_or, Option.or_eq_some_iff] at h
        rcases h with h | ⟨-, h | ⟨-, h | ⟨-, h | ⟨-, h | ⟨-, h⟩⟩⟩⟩⟩
        · simp only [read?.expr?, Option.bind_eq_bind, Option.bind_eq_some_iff,
            Option.map_eq_some_iff] at h
          obtain ⟨_, _, text, _, rfl⟩ := h
          exact .expr text
        · simp only [read?.not?, Option.bind_eq_bind, Option.bind_eq_some_iff,
            Option.map_eq_some_iff] at h
          obtain ⟨_, _, inner, hinner, rfl⟩ := h
          obtain ⟨_, hread⟩ := exists_of_required? hinner
          exact .not (settled_of_read? hread)
        · simp only [read?.and?, Option.bind_eq_bind, Option.bind_eq_some_iff,
            Option.map_eq_some_iff] at h
          obtain ⟨_, _, gs, hgs, rfl⟩ := h
          exact .and (hall hgs)
        · simp only [read?.or?, Option.bind_eq_bind, Option.bind_eq_some_iff,
            Option.map_eq_some_iff] at h
          obtain ⟨_, _, gs, hgs, rfl⟩ := h
          exact .or (hall hgs)
        · simp only [read?.stateIn?, Option.bind_eq_bind, Option.bind_eq_some_iff,
            Option.map_eq_some_iff] at h
          obtain ⟨_, _, id, _, rfl⟩ := h
          exact .stateIn id
        · simp only [read?.parameterized?, Option.bind_eq_bind, Option.bind_eq_some_iff,
            Option.some.injEq] at h
          obtain ⟨_, _, name, _, params, hparams, rfl⟩ := h
          exact .parameterized name hparams

theorem listToJson_eq_map (gs : List GuardConfig) : listToJson gs = gs.map toJson := by
  induction gs with
  | nil => rfl
  | cons g rest ih => rw [listToJson, ih, List.map_cons]

theorem toJson_ne_null (g : GuardConfig) : g.toJson ≠ .null := by
  cases g <;> simp [toJson]

/-- The readers that look for a field fail where there is none. -/
theorem read?_obj (fuel : Nat) (fields : List (String × Json)) :
    read? (fuel + 1) (.obj fields) =
      (read?.expr? (.obj fields) <|> read?.not? fuel (.obj fields) <|>
        read?.and? fuel (.obj fields) <|> read?.or? fuel (.obj fields) <|>
        read?.stateIn? (.obj fields) <|> read?.parameterized? (.obj fields)) := by
  simp [read?]

theorem read?_of_absent (fuel : Nat) {fields : List (String × Json)}
    (h : ∀ key ∈ ["expr", "not", "and", "or", "stateIn"], field? key fields = none) :
    read? (fuel + 1) (.obj fields) = read?.parameterized? (.obj fields) := by
  have hexpr : read?.expr? (.obj fields) = none := bind_required?_eq_none (h _ (by simp)) _ _ _
  have hnot : read?.not? fuel (.obj fields) = none := by
    rw [read?.not?]
    exact bind_required?_eq_none (h _ (by simp)) _ _ _
  have hand : read?.and? fuel (.obj fields) = none := by
    rw [read?.and?]
    exact bind_required?_eq_none (h _ (by simp)) _ _ _
  have hor : read?.or? fuel (.obj fields) = none := by
    rw [read?.or?]
    exact bind_required?_eq_none (h _ (by simp)) _ _ _
  have hstateIn : read?.stateIn? (.obj fields) = none :=
    bind_required?_eq_none (h _ (by simp)) _ _ _
  rw [read?_obj, hexpr, hnot, hand, hor, hstateIn]
  rfl

/-- A written guard is read as itself, if it is read as deeply as it is nested. -/
theorem read?_toJson {g : GuardConfig} (h : g.Settled) : ∀ {fuel : Nat},
    g.toJson.depth < fuel → read? fuel g.toJson = some g := by
  have hitems : ∀ {gs : List GuardConfig} {fuel : Nat},
      (∀ g ∈ gs, ∀ {fuel : Nat}, g.toJson.depth < fuel → read? fuel g.toJson = some g) →
        depthItems (gs.map toJson) < fuel → readAll? (read? fuel) (gs.map toJson) = some gs := by
    intro gs fuel ih hf
    refine readAll?_map_self fun g hg => ih g hg ?_
    have := depth_le_of_mem_items (List.mem_map_of_mem (f := toJson) hg)
    omega
  induction h with
  | named name =>
      intro fuel hf
      obtain ⟨fuel, rfl⟩ := Nat.exists_eq_add_of_lt hf
      simp [toJson, read?]
  | expr text =>
      intro fuel hf
      obtain ⟨fuel, rfl⟩ := Nat.exists_eq_add_of_lt hf
      simp [toJson, read?_obj, read?.expr?, objectRecord?, repeats, field?, required?, asStr?_str]
  | @not inner _ ih =>
      intro fuel hf
      rcases fuel with _ | fuel
      · omega
      simp only [toJson, depth, depthFields] at hf
      have := ih (show inner.toJson.depth < fuel by omega)
      simp [toJson, read?_obj, read?.expr?, read?.not?, objectRecord?, repeats, field?, required?,
        this]
  | @and guards _ ih =>
      intro fuel hf
      rcases fuel with _ | fuel
      · omega
      simp only [toJson, depth, depthFields, listToJson_eq_map] at hf
      have := hitems ih (show depthItems (guards.map toJson) < fuel by omega)
      simp [toJson, listToJson_eq_map, read?_obj, read?.expr?, read?.not?, read?.and?,
        objectRecord?, repeats, field?, required?, array?, this]
  | @or guards _ ih =>
      intro fuel hf
      rcases fuel with _ | fuel
      · omega
      simp only [toJson, depth, depthFields, listToJson_eq_map] at hf
      have := hitems ih (show depthItems (guards.map toJson) < fuel by omega)
      simp [toJson, listToJson_eq_map, read?_obj, read?.expr?, read?.not?, read?.and?, read?.or?,
        objectRecord?, repeats, field?, required?, array?, this]
  | stateIn id =>
      intro fuel hf
      obtain ⟨fuel, rfl⟩ := Nat.exists_eq_add_of_lt hf
      simp [toJson, read?_obj, read?.expr?, read?.not?, read?.and?, read?.or?, read?.stateIn?,
        objectRecord?, repeats, field?, required?, asStr?_str]
  | @parameterized name params field hparams =>
      intro fuel hf
      obtain ⟨fuel, rfl⟩ := Nat.exists_eq_add_of_lt hf
      have hwrites := (Writes.nonNullField "params" params).cons "type" (.str name)
      have hname : field? "type" (("type", .str name) :: nonNullField "params" params) =
          some (.str name) := rfl
      have hpar : defaulted? .null any?
          (field? "params" (("type", .str name) :: nonNullField "params" params)) = some params :=
        defaulted?_nonNullField hparams
      have hother : ∀ key ∈ ["expr", "not", "and", "or", "stateIn"], key ∉ ["type", "params"] := by
        decide
      rw [toJson, read?_of_absent _ fun key hkey => hwrites.field?_eq_none (hother key hkey)]
      simp [read?.parameterized?, objectRecord?_obj hwrites, hname, hpar, required?, asStr?_str]

theorem ofJson?_toJson {g : GuardConfig} (h : g.Settled) : ofJson? g.toJson = some g :=
  read?_toJson h (Nat.lt_succ_self _)

/-- An optional guard is written and read as it is. -/
theorem optional?_toJson {field : Option Json} {x : Option GuardConfig}
    (h : optional? ofJson? field = some x) :
    optional? ofJson? (x.map toJson) = some x :=
  optional?_map_self fun g hg => by
    obtain ⟨_, -, hread⟩ := exists_of_optional? h g hg
    exact ⟨g.toJson_ne_null, ofJson?_toJson (settled_of_read? hread)⟩

end GuardConfig

/-! ## Events and delays -/

theorem Event.ofJson?_toJson {j : Json} {e : Event} (h : ofJson? j = some e) :
    ofJson? e.toJson = some e := by
  simp only [ofJson?, Option.bind_eq_bind, Option.bind_eq_some_iff, Option.some.injEq] at h
  obtain ⟨_, _, name, _, data, hdata, origin, _, kind, _, rfl⟩ := h
  have hwrites : Writes fieldNames _ :=
    (((Writes.field "type" (.str name)).append (.nonNullField "data" data)).append
      (.optionalField "origin" .str origin)).append (.field "kind" (.str kind.text))
  have hlookup : (Event.toJson { name, data, origin, kind }).record? fieldNames = _ :=
    record?_obj hwrites (by decide)
  have hdata : defaulted? .null any? (field? "data" (nonNullField "data" data)) = some data :=
    defaulted?_nonNullField ‹_›
  rw [ofJson?, hlookup]
  simp [field?, asStr?_str, hdata, optional?_str, name?]

theorem EventConfig.ofJson?_toJson {j : Json} {e : EventConfig} (h : ofJson? j = some e) :
    ofJson? e.toJson = some e := by
  unfold ofJson? at h
  split at h
  · cases h
    rfl
  · obtain ⟨event, hevent, rfl⟩ := Option.map_eq_some_iff.mp h
    have hread := Event.ofJson?_toJson hevent
    rw [toJson, Event.toJson] at *
    rw [ofJson?, hread]
    · rfl
    · simp

theorem DelayConfig.toJson_ne_null (d : DelayConfig) : d.toJson ≠ .null := by
  cases d <;> simp [toJson, Json.nat]

theorem DelayConfig.ofJson?_toJson {j : Json} {d : DelayConfig} (h : ofJson? j = some d) :
    ofJson? d.toJson = some d := by
  unfold ofJson? at h
  split at h
  · cases h
    rfl
  · obtain ⟨n, hn, rfl⟩ := Option.map_eq_some_iff.mp h
    -- A delay that was read is in range, so it is in range when it is read again.
    have hlt : (n : Int) < 18446744073709551616 := by
      cases j with
      | num number =>
          cases number with
          | int value =>
              simp only [asUInt64?, Number.asUInt64?] at hn
              split at hn
              · rename_i hrange
                have hsize : (UInt64.size : Int) = 18446744073709551616 := rfl
                cases hn
                omega
              · cases hn
          | float _ => cases hn
      | _ => cases hn
    simp [ofJson?, toJson, Json.nat, asUInt64?, Number.asUInt64?, hlt]

/-! ## Actions -/

namespace ActionConfig

mutual

/-- What an action is read as after it was written. -/
def reread : ActionConfig → ActionConfig
  | .parameterized name params =>
      if name = "log" then .log none none else .parameterized name params
  | .choose branches => .choose (rereadBranches branches)
  | a => a

def rereadBranches : List (BranchConfig ActionConfig) → List (BranchConfig ActionConfig)
  | [] => []
  | ⟨guard, actions⟩ :: rest => ⟨guard, rereadAll actions⟩ :: rereadBranches rest

def rereadAll : List ActionConfig → List ActionConfig
  | [] => []
  | a :: rest => reread a :: rereadAll rest

end

theorem rereadAll_eq_map (as : List ActionConfig) : rereadAll as = as.map reread := by
  induction as with
  | nil => rfl
  | cons a rest ih => rw [rereadAll, ih, List.map_cons]

theorem rereadBranches_eq_map (bs : List (BranchConfig ActionConfig)) :
    rereadBranches bs = bs.map fun b => ⟨b.guard, b.actions.map reread⟩ := by
  induction bs with
  | nil => rfl
  | cons b rest ih => rw [rereadBranches, ih, List.map_cons, rereadAll_eq_map]

theorem listToJson_eq_map (as : List ActionConfig) : listToJson as = as.map toJson := by
  induction as with
  | nil => rfl
  | cons a rest ih => rw [listToJson, ih, List.map_cons]

/-- A branch of a choice as it is written. -/
def branchToJson (b : BranchConfig ActionConfig) : Json :=
  .obj (optionalField "guard" GuardConfig.toJson b.guard ++ listField "actions" toJson b.actions)

theorem branchesToJson_eq_map (bs : List (BranchConfig ActionConfig)) :
    branchesToJson bs = bs.map branchToJson := by
  induction bs with
  | nil => rfl
  | cons b rest ih =>
      obtain ⟨guard, actions⟩ := b
      rw [branchesToJson, ih, List.map_cons, branchToJson, listToJson_eq_map]
      cases actions <;> rfl

/-- The actions that reading yields: every part of them is written and read as it is. -/
inductive Settled : ActionConfig → Prop
  | named (name : String) : Settled (.named name)
  | assign {assignment : List (String × Json)} :
      read?.object? (.obj assignment) = some assignment → Settled (.assign assignment)
  | raise {event : EventConfig} {delay : Option DelayConfig} (id : Option String) :
      EventConfig.ofJson? event.toJson = some event →
      optional? DelayConfig.ofJson? (delay.map DelayConfig.toJson) = some delay →
      Settled (.raise event delay id)
  | sendTo (target : String) {event : EventConfig} {delay : Option DelayConfig}
      (id : Option String) : EventConfig.ofJson? event.toJson = some event →
      optional? DelayConfig.ofJson? (delay.map DelayConfig.toJson) = some delay →
      Settled (.sendTo target event delay id)
  | sendParent {event : EventConfig} {delay : Option DelayConfig} (id : Option String) :
      EventConfig.ofJson? event.toJson = some event →
      optional? DelayConfig.ofJson? (delay.map DelayConfig.toJson) = some delay →
      Settled (.sendParent event delay id)
  | log (label : Option String) {message : Option Json} :
      optional? any? message = some message → Settled (.log label message)
  | cancel (id : String) : Settled (.cancel id)
  | stopChild (id : String) : Settled (.stopChild id)
  | spawnChild (source : String) (id systemId : Option String) {input : Option Json} :
      optional? any? input = some input →
      Settled (.spawnChild source id systemId input)
  | choose {branches : List (BranchConfig ActionConfig)} :
      (∀ b ∈ branches,
        optional? GuardConfig.ofJson? (b.guard.map GuardConfig.toJson) = some b.guard) →
      (∀ b ∈ branches, ∀ a ∈ b.actions, Settled a) → Settled (.choose branches)
  | parameterized (name : String) {params : Json} {field : Option Json} :
      defaulted? .null any? field = some params → Settled (.parameterized name params)

theorem object?_of_object? {j : Json} {fields : List (String × Json)}
    (h : read?.object? j = some fields) : read?.object? (.obj fields) = some fields := by
  cases j with
  | obj given =>
      have hdedup : dedup (.obj given) = .obj fields := by
        simp only [read?.object?, dedup] at h ⊢
        rw [Option.some.inj h]
      rw [read?.object?, ← hdedup, dedup_dedup, hdedup]
  | _ => cases h

theorem optional?_delay {field : Option Json} {delay : Option DelayConfig}
    (h : optional? DelayConfig.ofJson? field = some delay) :
    optional? DelayConfig.ofJson? (delay.map DelayConfig.toJson) = some delay :=
  optional?_map_self fun d hd => by
    obtain ⟨_, -, hread⟩ := exists_of_optional? h d hd
    exact ⟨d.toJson_ne_null, DelayConfig.ofJson?_toJson hread⟩

theorem settled_of_builtin? {fuel : Nat} {j : Json} {a : ActionConfig}
    (ih : ∀ {j : Json} {a : ActionConfig}, read? fuel j = some a → a.Settled)
    (h : read?.builtin? fuel j = some a) : a.Settled := by
  unfold read?.builtin? at h
  simp only [Option.bind_eq_bind, Option.bind_eq_some_iff] at h
  obtain ⟨⟨tag, body⟩, -, name, -, h⟩ := h
  simp only at h
  split at h
  all_goals
    try simp only [Option.bind_eq_some_iff, Option.map_eq_some_iff, Option.some.injEq] at h
  · obtain ⟨_, _, assignment, hassignment, rfl⟩ := h
    obtain ⟨_, hobject⟩ := exists_of_required? hassignment
    exact .assign (object?_of_object? hobject)
  · obtain ⟨_, _, event, hevent, delay, hdelay, id, _, rfl⟩ := h
    obtain ⟨_, hevent⟩ := exists_of_required? hevent
    exact .raise id (EventConfig.ofJson?_toJson hevent) (optional?_delay hdelay)
  · obtain ⟨_, _, target, _, event, hevent, delay, hdelay, id, _, rfl⟩ := h
    obtain ⟨_, hevent⟩ := exists_of_required? hevent
    exact .sendTo target id (EventConfig.ofJson?_toJson hevent) (optional?_delay hdelay)
  · obtain ⟨_, _, event, hevent, delay, hdelay, id, _, rfl⟩ := h
    obtain ⟨_, hevent⟩ := exists_of_required? hevent
    exact .sendParent id (EventConfig.ofJson?_toJson hevent) (optional?_delay hdelay)
  · obtain ⟨_, _, label, _, message, hmessage, rfl⟩ := h
    exact .log label (optional?_any hmessage)
  · obtain ⟨_, _, id, _, rfl⟩ := h
    exact .cancel id
  · obtain ⟨_, _, id, _, rfl⟩ := h
    exact .stopChild id
  · obtain ⟨_, _, source, _, id, _, systemId, _, input, hinput, rfl⟩ := h
    exact .spawnChild source id systemId (optional?_any hinput)
  · obtain ⟨_, _, branches, hbranches, rfl⟩ := h
    obtain ⟨_, harray⟩ := exists_of_required? hbranches
    have hbranch : ∀ b ∈ branches, ∃ j, read?.branch? fuel j = some b := exists_of_array? harray
    refine .choose (fun b hb => ?_) (fun b hb a ha => ?_)
    · obtain ⟨j, hj⟩ := hbranch b hb
      unfold read?.branch? at hj
      simp only [Option.bind_eq_bind, Option.bind_eq_some_iff, Option.some.injEq] at hj
      obtain ⟨_, _, guard, hguard, actions, _, rfl⟩ := hj
      exact GuardConfig.optional?_toJson hguard
    · obtain ⟨j, hj⟩ := hbranch b hb
      unfold read?.branch? at hj
      simp only [Option.bind_eq_bind, Option.bind_eq_some_iff, Option.some.injEq] at hj
      obtain ⟨_, _, guard, _, actions, hactions, rfl⟩ := hj
      obtain ⟨_, hread⟩ := exists_of_list hactions a ha
      exact ih hread
  · cases h

theorem settled_of_read? : ∀ {fuel : Nat} {j : Json} {a : ActionConfig},
    read? fuel j = some a → a.Settled
  | 0, _, _, h => by simp [read?] at h
  | fuel + 1, j, a, h => by
      unfold read? at h
      split at h
      · cases h
        exact .named _
      · simp only [Option.orElse_eq_orElse, Option.orElse_eq_or, Option.or_eq_some_iff] at h
        rcases h with h | ⟨-, h⟩
        · exact settled_of_builtin? (fun hread => settled_of_read? hread) h
        · simp only [read?.parameterized?, Option.bind_eq_bind, Option.bind_eq_some_iff,
            Option.some.injEq] at h
          obtain ⟨_, _, name, _, params, hparams, rfl⟩ := h
          exact .parameterized name hparams

/-- A tagged record without another tag is split into the tag and its fields. -/
theorem tagged?_obj {names : List String} {fields : List (String × Json)}
    (h : Writes names fields) (hnames : "type" ∉ names) (tag : Json) :
    tagged? (.obj (("type", tag) :: fields)) = some (tag, .obj fields) := by
  have hne := h.not_mem hnames
  have hnone : fields.filter (fun field => decide (field.1 = "type")) = [] := by
    simpa [List.filter_eq_nil_iff] using hne
  have hall : fields.filter (fun field => decide (field.1 ≠ "type")) = fields := by
    simpa [List.filter_eq_self] using hne
  have hno : repeats "type" (("type", tag) :: fields) = false := by
    simp only [repeats, List.filter_cons]
    simp [hnone]
  rw [tagged?, hno, if_neg Bool.false_ne_true, List.filter_cons, if_neg (by simp), hall]
  simp [field?]

theorem writes_timing (delay : Option DelayConfig) (id : Option String) :
    Writes ["delay", "id"] (timing delay id) :=
  (Writes.optionalField "delay" DelayConfig.toJson delay).append (.optionalField "id" .str id)

@[simp] theorem field?_timing_delay (delay : Option DelayConfig) (id : Option String) :
    field? "delay" (timing delay id) = delay.map DelayConfig.toJson := by
  simp [timing]

@[simp] theorem field?_timing_id (delay : Option DelayConfig) (id : Option String) :
    field? "id" (timing delay id) = id.map .str := by
  simp [timing]

section

variable (fuel : Nat)

theorem builtin?_assign {assignment : List (String × Json)}
    (h : read?.object? (.obj assignment) = some assignment) :
    read?.builtin? fuel (toJson (.assign assignment)) = some (.assign assignment) := by
  have hwrites := Writes.field "assignment" (.obj assignment)
  have htag : tagged? (toJson (.assign assignment)) = _ :=
    tagged?_obj hwrites (by decide) (.str "assign")
  rw [read?.builtin?, htag]
  change ((record? ["assignment"] (.obj [("assignment", .obj assignment)])).bind fun field =>
    (required? read?.object? (field "assignment")).bind fun value =>
      some (ActionConfig.assign value)) = _
  rw [record?_obj hwrites (by decide)]
  simp [field?, h]

theorem builtin?_raise {event : EventConfig} {delay : Option DelayConfig} (id : Option String)
    (hevent : EventConfig.ofJson? event.toJson = some event)
    (hdelay : optional? DelayConfig.ofJson? (delay.map DelayConfig.toJson) = some delay) :
    read?.builtin? fuel (toJson (.raise event delay id)) = some (.raise event delay id) := by
  have hwrites := (writes_timing delay id).cons "event" event.toJson
  have htag : tagged? (toJson (.raise event delay id)) = _ :=
    tagged?_obj hwrites (by decide) (.str "raise")
  rw [read?.builtin?, htag]
  change (record? ["event", "delay", "id"] _).bind _ = _
  rw [record?_obj hwrites (by decide)]
  simp [field?, hevent, hdelay, optional?_str]

theorem builtin?_sendTo (target : String) {event : EventConfig} {delay : Option DelayConfig}
    (id : Option String) (hevent : EventConfig.ofJson? event.toJson = some event)
    (hdelay : optional? DelayConfig.ofJson? (delay.map DelayConfig.toJson) = some delay) :
    read?.builtin? fuel (toJson (.sendTo target event delay id)) =
      some (.sendTo target event delay id) := by
  have hwrites := ((writes_timing delay id).cons "event" event.toJson).cons "to" (.str target)
  have htag : tagged? (toJson (.sendTo target event delay id)) = _ :=
    tagged?_obj hwrites (by decide) (.str "sendTo")
  rw [read?.builtin?, htag]
  change (record? ["to", "event", "delay", "id"] _).bind _ = _
  rw [record?_obj hwrites (by decide)]
  simp [field?, asStr?_str, hevent, hdelay, optional?_str]

theorem builtin?_sendParent {event : EventConfig} {delay : Option DelayConfig}
    (id : Option String) (hevent : EventConfig.ofJson? event.toJson = some event)
    (hdelay : optional? DelayConfig.ofJson? (delay.map DelayConfig.toJson) = some delay) :
    read?.builtin? fuel (toJson (.sendParent event delay id)) =
      some (.sendParent event delay id) := by
  have hwrites := (writes_timing delay id).cons "event" event.toJson
  have htag : tagged? (toJson (.sendParent event delay id)) = _ :=
    tagged?_obj hwrites (by decide) (.str "sendParent")
  rw [read?.builtin?, htag]
  change (record? ["event", "delay", "id"] _).bind _ = _
  rw [record?_obj hwrites (by decide)]
  simp [field?, hevent, hdelay, optional?_str]

theorem builtin?_log (label : Option String) {message : Option Json}
    (h : optional? any? message = some message) :
    read?.builtin? fuel (toJson (.log label message)) = some (.log label message) := by
  have hwrites : Writes ["label", "message"] _ :=
    (Writes.optionalField "label" .str label).append (.optionalField "message" (·) message)
  have htag : tagged? (toJson (.log label message)) = _ :=
    tagged?_obj hwrites (by decide) (.str "log")
  rw [read?.builtin?, htag]
  change (record? ["label", "message"] _).bind _ = _
  rw [record?_obj hwrites (by decide)]
  simp [h, optional?_str]

theorem builtin?_cancel (id : String) :
    read?.builtin? fuel (toJson (.cancel id)) = some (.cancel id) := by
  have hwrites := Writes.field "id" (.str id)
  have htag : tagged? (toJson (.cancel id)) = _ :=
    tagged?_obj hwrites (by decide) (.str "cancel")
  rw [read?.builtin?, htag]
  change ((record? ["id"] (.obj [("id", .str id)])).bind fun field =>
    (required? asStr? (field "id")).map ActionConfig.cancel) = _
  rw [record?_obj hwrites (by decide)]
  simp [field?, asStr?_str]

theorem builtin?_stopChild (id : String) :
    read?.builtin? fuel (toJson (.stopChild id)) = some (.stopChild id) := by
  have hwrites := Writes.field "id" (.str id)
  have htag : tagged? (toJson (.stopChild id)) = _ :=
    tagged?_obj hwrites (by decide) (.str "stopChild")
  rw [read?.builtin?, htag]
  change ((record? ["id"] (.obj [("id", .str id)])).bind fun field =>
    (required? asStr? (field "id")).map ActionConfig.stopChild) = _
  rw [record?_obj hwrites (by decide)]
  simp [field?, asStr?_str]

theorem builtin?_spawnChild (source : String) (id systemId : Option String) {input : Option Json}
    (h : optional? any? input = some input) :
    read?.builtin? fuel (toJson (.spawnChild source id systemId input)) =
      some (.spawnChild source id systemId input) := by
  have hwrites : Writes ["src", "id", "systemId", "input"] _ :=
    ((Writes.optionalField "id" .str id).append ((Writes.optionalField "systemId" .str systemId).append
      (.optionalField "input" (·) input))).cons "src" (.str source)
  have htag := tagged?_obj hwrites (by decide) (.str "spawnChild")
  simp only [toJson, List.cons_append, List.append_assoc]
  rw [read?.builtin?, htag]
  change (record? ["src", "id", "systemId", "input"] _).bind _ = _
  rw [record?_obj hwrites (by decide)]
  simp [field?, asStr?_str, h, optional?_str]

/-- Of the built-ins, only `log` is read from a record that has none of its fields. -/
theorem builtin?_parameterized (name : String) (params : Json) :
    read?.builtin? fuel (toJson (.parameterized name params)) =
      if name = "log" then some (.log none none) else none := by
  have hwrites := Writes.nonNullField "params" params
  have habsent : ∀ key, key ≠ "params" → field? key (nonNullField "params" params) = none :=
    fun key hkey => field?_nonNullField_of_ne hkey.symm params
  have hlookup : ∀ names : List String, record? names (.obj (nonNullField "params" params)) =
      some fun key => field? key (nonNullField "params" params) :=
    objectRecord?_of_nodup (hwrites.nodup (by decide))
  rw [toJson, read?.builtin?, tagged?_obj hwrites (by decide)]
  by_cases hname : name ∈ builtinNames
  · simp only [builtinNames, List.mem_cons, List.not_mem_nil, or_false] at hname
    rcases hname with rfl | rfl | rfl | rfl | rfl | rfl | rfl | rfl | rfl
    all_goals
      simp [builtinName?, builtinNames, hlookup, habsent, required?, optional?]
  · have hlog : name ≠ "log" := by
      rintro rfl
      exact hname (by decide)
    simp [builtinName?, hname, hlog]

theorem branch?_branchToJson {b : BranchConfig ActionConfig}
    (hguard : optional? GuardConfig.ofJson? (b.guard.map GuardConfig.toJson) = some b.guard)
    (hactions : ∀ a ∈ b.actions, read? fuel a.toJson = some a.reread) :
    read?.branch? fuel (branchToJson b) = some ⟨b.guard, b.actions.map reread⟩ := by
  have hwrites : Writes ["guard", "actions"] _ :=
    (Writes.optionalField "guard" GuardConfig.toJson b.guard).append
      (.listField "actions" toJson b.actions)
  rw [branchToJson, read?.branch?, record?_obj hwrites (by decide)]
  simp [hguard, defaulted?_listField hactions]

theorem builtin?_choose {branches : List (BranchConfig ActionConfig)}
    (h : ∀ b ∈ branches,
      read?.branch? fuel (branchToJson b) = some ⟨b.guard, b.actions.map reread⟩) :
    read?.builtin? fuel (toJson (.choose branches)) = some (reread (.choose branches)) := by
  have hwrites := Writes.field "branches" (.arr (branches.map branchToJson))
  have htag := tagged?_obj hwrites (by decide) (.str "choose")
  rw [toJson, branchesToJson_eq_map, read?.builtin?, htag]
  change ((record? ["branches"] (.obj [("branches", .arr (branches.map branchToJson))])).bind
    fun field => (required? (array? (read?.branch? fuel)) (field "branches")).bind fun value =>
      some (ActionConfig.choose value)) = _
  rw [record?_obj hwrites (by decide)]
  simp [field?, array?, readAll?_map h, reread, rereadBranches_eq_map]

theorem parameterized?_toJson (name : String) {params : Json} {field : Option Json}
    (h : defaulted? .null any? field = some params) :
    read?.parameterized? (toJson (.parameterized name params)) =
      some (.parameterized name params) := by
  have hwrites : Writes ["type", "params"] _ :=
    (Writes.nonNullField "params" params).cons "type" (.str name)
  rw [toJson, read?.parameterized?, objectRecord?_obj hwrites (by decide)]
  simp [field?, asStr?_str, defaulted?_nonNullField h]

/-- What is read as a built-in is no supplied action. -/
theorem read?_of_builtin? {fuel : Nat} {j : Json} {a : ActionConfig}
    (h : read?.builtin? fuel j = some a) : read? (fuel + 1) j = some a := by
  unfold read?
  split
  · simp [read?.builtin?, tagged?] at h
  · simp [h]

end

/-- How deep the actions of a branch are nested in a written choice. -/
theorem depth_lt_of_mem_branch {branches : List (BranchConfig ActionConfig)}
    {b : BranchConfig ActionConfig} (hb : b ∈ branches) {a : ActionConfig} (ha : a ∈ b.actions) :
    a.toJson.depth < (toJson (.choose branches)).depth := by
  have hbranch := depth_le_of_mem_items (List.mem_map_of_mem (f := branchToJson) hb)
  have haction := depth_le_of_mem_items (List.mem_map_of_mem (f := toJson) ha)
  have hfield : ("actions", Json.arr (b.actions.map toJson)) ∈
      optionalField "guard" GuardConfig.toJson b.guard ++
        listField "actions" toJson b.actions := by
    cases hl : b.actions with
    | nil => simp [hl] at ha
    | cons _ _ => simp [listField]
  have := depth_le_of_mem_fields hfield
  simp only [toJson, branchesToJson_eq_map, depth, depthFields]
  simp only [branchToJson, depth] at hbranch this
  omega

/-- A written action is read as what it is reread as, if it is read as deeply as it is nested. -/
theorem read?_toJson {a : ActionConfig} (h : a.Settled) : ∀ {fuel : Nat},
    a.toJson.depth < fuel → read? fuel a.toJson = some a.reread := by
  have hbuiltin : ∀ {a b : ActionConfig} {fuel : Nat},
      (∀ {fuel : Nat}, a.toJson.depth < fuel + 1 → read?.builtin? fuel a.toJson = some b) →
        a.toJson.depth < fuel → read? fuel a.toJson = some b := by
    intro a b fuel hread hf
    obtain ⟨fuel, rfl⟩ : ∃ n, fuel = n + 1 := ⟨fuel - 1, by omega⟩
    exact read?_of_builtin? (hread hf)
  induction h with
  | named name =>
      intro fuel hf
      obtain ⟨fuel, rfl⟩ := Nat.exists_eq_add_of_lt hf
      simp [toJson, read?, reread]
  | assign h => exact hbuiltin fun _ => builtin?_assign _ h
  | raise id hevent hdelay => exact hbuiltin fun _ => builtin?_raise _ id hevent hdelay
  | sendTo target id hevent hdelay =>
      exact hbuiltin fun _ => builtin?_sendTo _ target id hevent hdelay
  | sendParent id hevent hdelay => exact hbuiltin fun _ => builtin?_sendParent _ id hevent hdelay
  | log label h => exact hbuiltin fun _ => builtin?_log _ label h
  | cancel id => exact hbuiltin fun _ => builtin?_cancel _ id
  | stopChild id => exact hbuiltin fun _ => builtin?_stopChild _ id
  | spawnChild source id systemId h =>
      exact hbuiltin fun _ => builtin?_spawnChild _ source id systemId h
  | choose hguard _ ih =>
      refine fun {fuel} => hbuiltin fun {n} hf => builtin?_choose n fun b hb =>
        branch?_branchToJson n (hguard b hb) fun a ha => ih b hb a ha ?_
      have := depth_lt_of_mem_branch hb ha
      omega
  | @parameterized name params field h =>
      intro fuel hf
      obtain ⟨fuel, rfl⟩ : ∃ n, fuel = n + 1 := ⟨fuel - 1, by omega⟩
      have hread : read? (fuel + 1) (toJson (.parameterized name params)) =
          (read?.builtin? fuel (toJson (.parameterized name params)) <|>
            read?.parameterized? (toJson (.parameterized name params))) := by
        simp [toJson, read?]
      rw [hread, builtin?_parameterized, parameterized?_toJson name h, reread]
      split <;> rfl

theorem ofJson?_toJson {j : Json} {a : ActionConfig} (h : ofJson? j = some a) :
    ofJson? a.toJson = some a.reread :=
  read?_toJson (settled_of_read? h) (Nat.lt_succ_self _)

/-- A written list of actions is read action by action. -/
theorem defaulted?_toJson {field : Option Json} {as : List ActionConfig}
    (h : defaulted? [] (oneOrMany? ofJson?) field = some as) (key : String) :
    defaulted? [] (oneOrMany? ofJson?) (field? key (listField key toJson as)) =
      some (as.map reread) :=
  defaulted?_listField fun a ha => by
    obtain ⟨_, hread⟩ := exists_of_list h a ha
    exact ofJson?_toJson hread

end ActionConfig

end Statechart
