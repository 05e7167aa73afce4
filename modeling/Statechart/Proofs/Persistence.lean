import Statechart.Proofs.JsonText
import Statechart.Proofs.Running
import Statechart.Proofs.StateValue
import Statechart.Proofs.Storing
import Statechart.Snapshot.Persisted

/-!
# Stored snapshots as JSON

What is read back from the JSON form of a stored snapshot (`PersistedSnapshot.ofJson?_toJson`) and
from the text of that (`ofText?_text`). Reading is the inverse of writing but for two things: an
output or an error that is `null` is gone, and a free-form value has every field once
(`PersistedSnapshot.reread`). Maps have to be in the order of their keys, as they are in whatever is
stored of an actor (`System.store_ordered`).
-/

namespace Statechart

/-! ## State values -/

namespace StateValue

/-- The entries of every branch are in the order of their keys. -/
inductive Ordered : StateValue → Prop where
  | leaf (key : String) : Ordered (.leaf key)
  | branch {fields : List (String × StateValue)} (hsorted : SortedMap.Sorted fields)
      (h : ∀ f ∈ fields, Ordered f.2) : Ordered (.branch fields)

theorem Ordered.ofFields {fields : List (String × StateValue)} (h : ∀ f ∈ fields, f.2.Ordered) :
    (ofFields fields).Ordered :=
  .branch (SortedMap.sorted_ofList fields) fun f hf => h f (SortedMap.mem_ofList hf)

theorem fieldsToJson_eq_map (fields : List (String × StateValue)) :
    fieldsToJson fields = fields.map fun f => (f.1, f.2.toJson) := by
  induction fields with
  | nil => rfl
  | cons f rest ih => rw [fieldsToJson, ih, List.map_cons]

theorem ofJsonFields?_map {fields : List (String × StateValue)}
    (h : ∀ f ∈ fields, ofJson? f.2.toJson = some f.2) :
    ofJsonFields? (fields.map fun f => (f.1, f.2.toJson)) = some fields := by
  induction fields with
  | nil => rfl
  | cons f rest ih =>
      have hf := h f List.mem_cons_self
      have hrest := ih fun f hf => h f (List.mem_cons_of_mem _ hf)
      simp [ofJsonFields?, hf, hrest]

/-- A state value is read back. -/
theorem Ordered.ofJson?_toJson {v : StateValue} (h : v.Ordered) : ofJson? v.toJson = some v := by
  induction h with
  | leaf key => rfl
  | branch hsorted _ ih =>
      rw [toJson, fieldsToJson_eq_map, ofJson?, ofJsonFields?_map ih, Option.map_some,
        StateValue.ofFields, hsorted.ofList_eq]

theorem toJson_ne_null (v : StateValue) : v.toJson ≠ .null := by
  cases v <;> simp [toJson]

end StateValue

theorem Definition.ordered_valueAt {L : Type} (d : Definition L) (config : Configuration) :
    ∀ fuel i, (d.valueAt config fuel i).Ordered
  | 0, _ => .branch SortedMap.sorted_nil (by simp)
  | fuel + 1, i => by
      have hnone : (StateValue.branch []).Ordered := .branch SortedMap.sorted_nil (by simp)
      unfold valueAt
      dsimp only
      split
      · split
        · split
          · exact .leaf _
          · refine .branch (List.pairwise_singleton _ _) fun f hf => ?_
            rw [List.mem_singleton.mp hf]
            exact ordered_valueAt d config fuel _
        · exact hnone
      · refine .ofFields fun f hf => ?_
        obtain ⟨c, -, rfl⟩ := List.mem_map.mp hf
        exact ordered_valueAt d config fuel c
      · exact hnone

namespace PersistedSnapshot

/-! ## Stored snapshots as trees -/

mutual

/-- A stored snapshot has a property if it has it when the snapshots of its children do. -/
theorem induct {P : PersistedSnapshot → Prop}
    (step : ∀ p, (∀ c ∈ p.children, P c.2.snapshot) → P p) : ∀ p, P p
  | ⟨_, _, _, _, children, _, _, _, _, _⟩ => step _ (inductAll step children)

theorem inductAll {P : PersistedSnapshot → Prop}
    (step : ∀ p, (∀ c ∈ p.children, P c.2.snapshot) → P p) :
    ∀ children : List (String × PersistedChild PersistedSnapshot),
      ∀ c ∈ children, P c.2.snapshot
  | [], _, hc => absurd hc List.not_mem_nil
  | (id, ⟨source, systemId, snapshot⟩) :: rest, c, hc => by
      rcases List.mem_cons.mp hc with rfl | hc
      · exact induct step snapshot
      · exact inductAll step rest c hc

end

/-- A stored snapshot and those of its children, however deep, have a property. -/
inductive Everywhere (P : PersistedSnapshot → Prop) : PersistedSnapshot → Prop where
  | mk {p : PersistedSnapshot} (here : P p) (below : ∀ c ∈ p.children, Everywhere P c.2.snapshot) :
      Everywhere P p

/-! ## What is read back -/

/-- What is read of an optional value: `null` is nothing. -/
def rereadOption : Option Json → Option Json
  | some .null => none
  | some j => some j.dedup
  | none => none

mutual

/-- What is read of a stored snapshot that was written. -/
def reread : PersistedSnapshot → PersistedSnapshot
  | ⟨status, value, context, history, children, tags, output, error, input, checksum⟩ =>
      ⟨status, value, context.dedup, history, rereadAll children, tags, rereadOption output,
        rereadOption error, input.dedup, checksum⟩

def rereadAll : List (String × PersistedChild PersistedSnapshot) →
    List (String × PersistedChild PersistedSnapshot)
  | [] => []
  | (id, ⟨source, systemId, snapshot⟩) :: rest =>
      (id, ⟨source, systemId, reread snapshot⟩) :: rereadAll rest

end

/-- A stored child as it is read back. -/
def rereadChild (c : PersistedChild PersistedSnapshot) : PersistedChild PersistedSnapshot :=
  { c with snapshot := c.snapshot.reread }

theorem rereadAll_eq_map (children : List (String × PersistedChild PersistedSnapshot)) :
    rereadAll children = children.map fun c => (c.1, rereadChild c.2) := by
  induction children with
  | nil => rfl
  | cons c rest ih => rw [rereadAll, ih, List.map_cons, rereadChild]

/-- Free-form values that have every field once, as all have that a program can hold. -/
structure Plain (p : PersistedSnapshot) : Prop where
  context : p.context.dedup = p.context
  output : ∀ j ∈ p.output, j.dedup = j
  error : ∀ j ∈ p.error, j.dedup = j
  input : p.input.dedup = p.input

/-- Neither output nor error is there as `null`. -/
structure Telling (p : PersistedSnapshot) : Prop where
  output : p.output ≠ some .null
  error : p.error ≠ some .null

theorem rereadOption_eq_self_iff {x : Option Json} :
    rereadOption x = x ↔ (∀ j ∈ x, j.dedup = j) ∧ x ≠ some .null := by
  unfold rereadOption
  split
  · simp
  · rename_i j hne
    have hne : j ≠ .null := fun heq => hne heq
    simp [hne]
  · simp

theorem rereadAll_eq_self_iff {children : List (String × PersistedChild PersistedSnapshot)} :
    rereadAll children = children ↔ ∀ c ∈ children, c.2.snapshot.reread = c.2.snapshot := by
  induction children with
  | nil => simp [rereadAll]
  | cons c rest ih =>
      obtain ⟨id, source, systemId, snapshot⟩ := c
      simp [rereadAll, ih]

/-- A stored snapshot is read back as it is if its values are plain and none of them is `null` in the
place of an output or an error. -/
theorem reread_eq_self_iff (p : PersistedSnapshot) :
    p.reread = p ↔ p.Everywhere Plain ∧ p.Everywhere Telling := by
  induction p using induct with
  | step p ih =>
      have hhere : p.reread = p ↔
          (p.Plain ∧ p.Telling) ∧ ∀ c ∈ p.children, c.2.snapshot.reread = c.2.snapshot := by
        rw [← rereadAll_eq_self_iff]
        obtain ⟨status, value, context, history, children, tags, output, error, input, checksum⟩ := p
        simp only [reread, mk.injEq, rereadOption_eq_self_iff, true_and, and_true]
        constructor
        · rintro ⟨hcontext, hall, ⟨ho, hno⟩, ⟨he, hne⟩, hinput⟩
          exact ⟨⟨⟨hcontext, ho, he, hinput⟩, hno, hne⟩, hall⟩
        · rintro ⟨⟨⟨hcontext, ho, he, hinput⟩, hno, hne⟩, hall⟩
          exact ⟨hcontext, hall, ⟨ho, hno⟩, ⟨he, hne⟩, hinput⟩
      rw [hhere]
      constructor
      · rintro ⟨⟨hplain, htelling⟩, hall⟩
        exact ⟨.mk hplain fun c hc => ((ih c hc).mp (hall c hc)).1,
          .mk htelling fun c hc => ((ih c hc).mp (hall c hc)).2⟩
      · rintro ⟨⟨hplain, hplains⟩, ⟨htelling, htellings⟩⟩
        exact ⟨⟨hplain, htelling⟩, fun c hc => (ih c hc).mpr ⟨hplains c hc, htellings c hc⟩⟩

/-! ## Fields -/

/-- The fields that a stored child is written with. -/
def childFields (c : PersistedChild PersistedSnapshot) : List (String × Json) :=
  Json.optionalField "src" Json.str c.source ++
    Json.optionalField "systemId" Json.str c.systemId ++ [("snapshot", c.snapshot.toJson)]

/-- The fields that a stored snapshot is written with. -/
def fields (p : PersistedSnapshot) : List (String × Json) :=
  [("status", .str p.status.text)] ++
    Json.optionalField "value" StateValue.toJson p.value ++
    [("context", p.context)] ++
    nonEmptyObject "historyValue" (p.history.map fun h => (h.1, .arr (h.2.map Json.str))) ++
    nonEmptyObject "children" (p.children.map fun c => (c.1, .obj (childFields c.2))) ++
    Json.listField "tags" Json.str p.tags ++
    Json.optionalField "output" id p.output ++
    Json.optionalField "error" id p.error ++
    Json.nonNullField "input" p.input ++
    Json.optionalField "checksum" Json.str p.checksum

theorem childrenToJson_eq_map (children : List (String × PersistedChild PersistedSnapshot)) :
    childrenToJson children = children.map fun c => (c.1, .obj (childFields c.2)) := by
  induction children with
  | nil => rfl
  | cons c rest ih => rw [childrenToJson, ih, List.map_cons, childFields]

theorem toJson_eq_fields (p : PersistedSnapshot) : p.toJson = .obj p.fields := by
  obtain ⟨status, value, context, history, children, tags, output, error, input, checksum⟩ := p
  simp only [toJson, fields, childrenToJson_eq_map, List.cons_append, List.nil_append]

theorem writes_nonEmptyObject (key : String) (xs : List (String × Json)) :
    Json.Writes [key] (nonEmptyObject key xs) := by
  cases xs <;> simp [Json.Writes, nonEmptyObject]

@[simp] theorem field?_nonEmptyObject_of_ne {key other : String} (h : other ≠ key)
    (xs : List (String × Json)) : Json.field? key (nonEmptyObject other xs) = none :=
  (writes_nonEmptyObject other xs).field?_eq_none (by simpa using h.symm)

theorem eq_of_field?_nonEmptyObject {key : String} {xs : List (String × Json)} {j : Json}
    (h : Json.field? key (nonEmptyObject key xs) = some j) : j = .obj xs := by
  cases xs with
  | nil => cases h
  | cons x rest => simpa [nonEmptyObject, Json.field?] using h.symm

theorem writes_childFields (c : PersistedChild PersistedSnapshot) :
    Json.Writes childFieldNames (childFields c) :=
  ((Json.Writes.optionalField "src" _ _).append (.optionalField "systemId" _ _)).append
    (.field "snapshot" _)

theorem writes_fields (p : PersistedSnapshot) : Json.Writes fieldNames p.fields :=
  (((((((((Json.Writes.field "status" _).append (.optionalField "value" _ _)).append
    (.field "context" _)).append (writes_nonEmptyObject "historyValue" _)).append
    (writes_nonEmptyObject "children" _)).append (.listField "tags" _ _)).append
    (.optionalField "output" _ _)).append (.optionalField "error" _ _)).append
    (.nonNullField "input" _)).append (.optionalField "checksum" _ _)

/-- Only the children are in the field that is called so. -/
theorem field?_children (p : PersistedSnapshot) :
    Json.field? "children" p.fields = Json.field? "children"
      (nonEmptyObject "children" (p.children.map fun c => (c.1, .obj (childFields c.2)))) := by
  simp [fields, Json.field?]

/-! ## Reading what was written -/

/-- Written entries are read back in the order of their keys, which they have. -/
theorem defaulted?_nonEmptyObject {α : Type} (read : Json → Option α) (write : α → Json) (f : α → α)
    (key : String) {xs : List (String × α)} (hsorted : SortedMap.Sorted xs)
    (h : ∀ x ∈ xs, read (write x.2) = some (f x.2)) :
    Json.defaulted? [] (entries? read)
      (Json.field? key (nonEmptyObject key (xs.map fun x => (x.1, write x.2)))) =
        some (xs.map fun x => (x.1, f x.2)) := by
  have hall : readFields? read (xs.map fun x => (x.1, write x.2)) =
      some (xs.map fun x => (x.1, f x.2)) := by
    clear hsorted
    induction xs with
    | nil => rfl
    | cons x rest ih =>
        have hx := h x List.mem_cons_self
        have hrest := ih fun y hy => h y (List.mem_cons_of_mem _ hy)
        simp [readFields?, hx, hrest]
  have hsorted' : SortedMap.Sorted (xs.map fun x => (x.1, f x.2)) := by
    rw [SortedMap.sorted_iff_keys, List.map_map]
    exact SortedMap.sorted_iff_keys.mp hsorted
  cases xs with
  | nil => rfl
  | cons x rest =>
      rw [List.map_cons] at hall
      rw [List.map_cons, nonEmptyObject, Json.field?, if_pos rfl, Json.defaulted?_some, entries?,
        hall, Option.map_some, hsorted'.ofList_eq]
      exact List.cons_ne_nil _ _

theorem array?_strings (texts : List String) :
    Json.array? Json.asStr? (.arr (texts.map Json.str)) = some texts :=
  Json.readAll?_map_self fun _ _ => rfl

theorem defaulted?_tags (tags : List String) :
    Json.defaulted? [] (Json.array? Json.asStr?)
      (Json.field? "tags" (Json.listField "tags" Json.str tags)) = some tags := by
  cases tags with
  | nil => rfl
  | cons tag rest =>
      rw [Json.listField, Json.field?, if_pos rfl, Json.defaulted?_some, array?_strings]
      exact List.cons_ne_nil tag rest

theorem optional?_any (x : Option Json) : Json.optional? Json.any? x = some (rereadOption x) := by
  cases x with
  | none => rfl
  | some j => cases j <;> rfl

theorem defaulted?_input (input : Json) :
    Json.defaulted? .null Json.any? (Json.field? "input" (Json.nonNullField "input" input)) =
      some input.dedup := by
  cases input <;> rfl

theorem name?_status (status : SnapshotStatus) :
    Json.name? false SnapshotStatus.ofText? (.str status.text) = some status :=
  SnapshotStatus.ofText?_text status

theorem childOfJson?_fields {read : Json → Option PersistedSnapshot}
    {c : PersistedChild PersistedSnapshot} (h : read c.snapshot.toJson = some c.snapshot.reread) :
    childOfJson? read (.obj (childFields c)) = some (rereadChild c) := by
  rw [childOfJson?, Json.record?_obj (writes_childFields c) (by decide)]
  simp [childFields, Json.field?, Json.optional?_str, h, rereadChild]

/-- Stored maps are in the order of their keys. -/
structure Ordered (p : PersistedSnapshot) : Prop where
  value : ∀ v ∈ p.value, v.Ordered
  history : SortedMap.Sorted p.history
  children : SortedMap.Sorted p.children

/-- A child is nested less deeply than its parent. -/
theorem depth_child_lt {p : PersistedSnapshot} {c : String × PersistedChild PersistedSnapshot}
    (hc : c ∈ p.children) : c.2.snapshot.toJson.depth < p.toJson.depth := by
  have hchild : ("snapshot", c.2.snapshot.toJson) ∈ childFields c.2 := by simp [childFields]
  have hentry : (c.1, Json.obj (childFields c.2)) ∈
      p.children.map fun c => (c.1, Json.obj (childFields c.2)) :=
    List.mem_map.mpr ⟨c, hc, rfl⟩
  have hchildren : ("children", Json.obj (p.children.map fun c => (c.1, .obj (childFields c.2)))) ∈
      p.fields := by
    obtain ⟨first, rest, hne⟩ := List.exists_cons_of_ne_nil (List.ne_nil_of_mem hc)
    simp [fields, hne, nonEmptyObject]
  have hchild := Json.depth_le_of_mem_fields hchild
  have hentry := Json.depth_le_of_mem_fields hentry
  have hchildren := Json.depth_le_of_mem_fields hchildren
  simp only [Json.depth] at hchild hentry hchildren
  rw [toJson_eq_fields p, Json.depth]
  omega

/-- A stored snapshot is read back level by level. -/
theorem ofJsonWithin_toJson {p : PersistedSnapshot} (h : p.Everywhere Ordered) : ∀ {fuel : Nat},
    p.toJson.depth < fuel → ofJsonWithin fuel p.toJson = some p.reread := by
  induction h with
  | @mk p here _ ih =>
      intro fuel hfuel
      obtain ⟨fuel, rfl⟩ : ∃ fuel', fuel = fuel' + 1 := ⟨fuel - 1, by omega⟩
      -- the fuel is for levels of JSON, of which every child has fewer
      have hvalue : Json.optional? StateValue.ofJson? (p.value.map StateValue.toJson) =
          some p.value :=
        Json.optional?_map_self fun v hv => ⟨v.toJson_ne_null, (here.value v hv).ofJson?_toJson⟩
      have hhistory := defaulted?_nonEmptyObject (Json.array? Json.asStr?)
        (fun states => .arr (states.map Json.str)) id "historyValue" here.history
        fun h _ => array?_strings h.2
      have hchildren := defaulted?_nonEmptyObject (childOfJson? (ofJsonWithin fuel))
        (fun c => .obj (childFields c)) rereadChild "children" here.children fun c hc =>
          childOfJson?_fields (ih c hc (by have := depth_child_lt hc; omega))
      rw [← rereadAll_eq_map] at hchildren
      simp only [id, Prod.mk.eta, List.map_id'] at hhistory
      rw [toJson_eq_fields, ofJsonWithin, Json.record?_obj p.writes_fields (by decide)]
      obtain ⟨status, value, context, history, children, tags, output, error, input, checksum⟩ := p
      simp [fields, Json.field?, name?_status, hvalue, hhistory, hchildren, defaulted?_tags,
        optional?_any, defaulted?_input, Json.optional?_str, reread, Json.any?]

/-- What is read of a stored snapshot with all its children. -/
theorem ofJson?_toJson {p : PersistedSnapshot} (h : p.Everywhere Ordered) :
    ofJson? p.toJson = some p.reread :=
  ofJsonWithin_toJson h (Nat.lt_succ_self _)

/-! ## Text -/

/-- The fields of a record are read as they are. -/
theorem whole_own {names : List String} {fields : List (String × Json)}
    (h : Json.Writes names fields) {f : String × Json} (hf : f ∈ fields) :
    Json.Whole outline (ownField names f.1) f.2 := by
  have hmem : names.contains f.1 = true := by
    simpa using h.subset (List.mem_map_of_mem hf)
  rw [ownField, if_pos hmem]
  exact .all f.2

theorem whole_child {c : PersistedChild PersistedSnapshot}
    (h : Json.Whole outline (.part .snapshot) c.snapshot.toJson) :
    Json.Whole outline (.part .child) (.obj (childFields c)) := by
  refine .obj fun f hf => ?_
  have hown := whole_own (writes_childFields c) hf
  have hfind := (writes_childFields c).field?_of_mem (by decide) hf
  dsimp only [outline]
  split
  · rename_i hname
    have hsnapshot : Json.field? "snapshot" (childFields c) = some c.snapshot.toJson := by
      simp [childFields, Json.field?]
    rw [hname, hsnapshot] at hfind
    rwa [← Option.some.inj hfind]
  · exact hown

/-- Nothing of what is written is passed over. -/
theorem whole_toJson (p : PersistedSnapshot) :
    Json.Whole outline (.part .snapshot) p.toJson := by
  induction p using induct with
  | step p ih =>
      rw [toJson_eq_fields]
      refine .obj fun f hf => ?_
      have hown := whole_own p.writes_fields hf
      have hfind := p.writes_fields.field?_of_mem (by decide) hf
      dsimp only [outline]
      -- the children are at another place of the outline, all other fields are read in whole
      split
      · rename_i hname
        rw [hname, field?_children] at hfind
        rw [eq_of_field?_nonEmptyObject hfind]
        refine .obj fun entry hentry => ?_
        obtain ⟨c, hc, rfl⟩ := List.mem_map.mp hentry
        exact whole_child (ih c hc)
      · exact hown

/-- The text of a stored snapshot is read as the JSON value that it is the text of. -/
theorem ofText?_text {p : PersistedSnapshot} (h : p.toJson.Legible)
    (hdepth : p.toJson.depth ≤ Json.maxDepth) : ofText? p.toJson.text = ofJson? p.toJson := by
  rw [ofText?, Json.parseOutlined?_text p.whole_toJson h hdepth, Option.bind_some]

end PersistedSnapshot

/-! ## Actors -/

namespace System

variable {sys : System}

/-- Children that are stored in good order make up stored children in the same order. -/
theorem storeChildren_ordered (sys : System) {store : Session → Except ActorError PersistedSnapshot} :
    ∀ {children : List (String × Session)},
      (∀ c ∈ children, ∃ stored, store c.2 = .ok stored ∧
        stored.Everywhere PersistedSnapshot.Ordered) →
      ∃ stored, storeChildren sys store children = .ok stored ∧
        stored.map Prod.fst = children.map Prod.fst ∧
        ∀ c ∈ stored, c.2.snapshot.Everywhere PersistedSnapshot.Ordered
  | [], _ => ⟨[], rfl, rfl, by simp⟩
  | (id, session) :: rest, h => by
      obtain ⟨snapshot, hstore, hordered⟩ := h (id, session) List.mem_cons_self
      obtain ⟨others, hothers, hkeys, hall⟩ :=
        storeChildren_ordered sys fun c hc => h c (List.mem_cons_of_mem _ hc)
      simp only at hstore
      rw [storeChildren, hstore]
      simp only [hothers]
      refine ⟨_, rfl, ?_, ?_⟩
      · rw [List.map_cons, List.map_cons, hkeys]
      · intro c hc
        rcases List.mem_cons.mp hc with rfl | hc
        · exact hordered
        · exact hall c hc

theorem storeValue_ordered (v : ValueSnapshot) :
    (storeValue v).Everywhere PersistedSnapshot.Ordered :=
  .mk ⟨nofun, SortedMap.sorted_nil, SortedMap.sorted_nil⟩ fun _ hc => absurd hc List.not_mem_nil

/-- The snapshot of a machine is stored in order if its children are. -/
theorem storeMachine_ordered {parent : Option Session} {current : MachineSnapshot}
    {d : Definition Logic} {implementations : Implementations Logic}
    (hsuits : current.Suits sys parent d implementations)
    {children : List (String × PersistedChild PersistedSnapshot)}
    (hkeys : children.map Prod.fst = current.children.map Prod.fst)
    (hall : ∀ c ∈ children, c.2.snapshot.Everywhere PersistedSnapshot.Ordered) :
    (storeMachine d current children).Everywhere PersistedSnapshot.Ordered := by
  have hvalue : current.value.Ordered := by
    rw [hsuits.value]
    exact d.ordered_valueAt _ _ _
  have hsorted : SortedMap.Sorted children := by
    rw [SortedMap.sorted_iff_keys, hkeys]
    exact SortedMap.sorted_iff_keys.mp hsuits.offspring.sorted
  refine .mk ⟨?_, SortedMap.sorted_ofList _, hsorted⟩ hall
  rintro _ ⟨⟩
  exact hvalue

/-- Every actor is stored, and the maps in what is stored are in order. -/
theorem store_ordered (hsound : sys.Sound) {s : Session} {a : Actor}
    (ha : sys.actor? s = some a) :
    ∃ stored, sys.store s = .ok stored ∧ stored.Everywhere PersistedSnapshot.Ordered := by
  -- children have greater numbers, all below that of the next session
  induction hn : sys.nextSession - s.number using Nat.strongRecOn generalizing s a with
  | _ n ih =>
      have hsuits := hsound.suits s a ha
      rw [store_eq hsound ha]
      cases hlogic : a.logic with
      | machine d implementations =>
          cases hsnapshot : a.snapshot with
          | machine current =>
              rw [hlogic, hsnapshot] at hsuits
              have hsuits : current.Suits sys (some s) d implementations := hsuits
              have hchildren : ∀ c ∈ current.children, ∃ stored, sys.store c.2 = .ok stored ∧
                  stored.Everywhere PersistedSnapshot.Ordered := by
                intro c hc
                obtain ⟨b, hb, -, hlate, -⟩ := hsuits.offspring.made c hc
                have hlater := (hlate s rfl).1
                have hfresh := hsound.fresh c.2 b hb
                exact ih _ (by omega) hb rfl
              obtain ⟨stored, hstored, hkeys, hall⟩ := storeChildren_ordered sys hchildren
              rw [Logic.store]
              simp only [hstored]
              exact ⟨_, rfl, storeMachine_ordered hsuits hkeys hall⟩
          | value v =>
              rw [hlogic, hsnapshot] at hsuits
              exact hsuits.elim
      | _ =>
          cases hsnapshot : a.snapshot with
          | machine current =>
              rw [hlogic, hsnapshot] at hsuits
              exact hsuits.elim
          | value v => exact ⟨_, rfl, storeValue_ordered v⟩

end System

namespace Delivery

variable {d : Delivery}

/-- Whatever actor there is, it is stored, and what is stored is read back from its JSON form, and
from the text of that if the text can be read at all. Nothing changes at any depth if the values are
plain and no output or error is `null`. -/
theorem Reached.store_reread (h : Reached d) {s : Session} {a : Actor}
    (ha : d.system.actor? s = some a) :
    ∃ stored, d.system.store s = .ok stored ∧
      PersistedSnapshot.ofJson? stored.toJson = some stored.reread ∧
      (stored.toJson.Legible → stored.toJson.depth ≤ Json.maxDepth →
        PersistedSnapshot.ofText? stored.toJson.text = some stored.reread) ∧
      (stored.reread = stored ↔
        stored.Everywhere PersistedSnapshot.Plain ∧ stored.Everywhere PersistedSnapshot.Telling) := by
  obtain ⟨stored, hstored, hordered⟩ := System.store_ordered h.sound.system ha
  have hread := PersistedSnapshot.ofJson?_toJson hordered
  refine ⟨stored, hstored, hread, fun hlegible hdepth => ?_, stored.reread_eq_self_iff⟩
  rw [PersistedSnapshot.ofText?_text hlegible hdepth, hread]

/-- What a task leaves that is done as soon as it starts. -/
def finished (output : Json) : Delivery :=
  (startRun (.task fun _ _ => { result := .ok output }) 20).2

theorem reached_finished (output : Json) : Reached (finished output) :=
  (run_startRun _ 20).reached (.fresh _ rfl)

set_option maxRecDepth 100000 in
/-- An output that is not `null` comes back, from the text as well. -/
theorem finished_reread : ∃ stored, (finished (.nat 7)).system.store ⟨0⟩ = .ok stored ∧
    stored.output = some (.nat 7) ∧ PersistedSnapshot.ofText? stored.toJson.text = some stored := by
  obtain ⟨a, ha⟩ : ∃ a, (finished (.nat 7)).system.actor? ⟨0⟩ = some a :=
    Option.isSome_iff_exists.mp (by decide +kernel)
  obtain ⟨stored, hstored, -, htext, hself⟩ := (reached_finished (.nat 7)).store_reread ha
  have hfields : ((finished (.nat 7)).system.store ⟨0⟩).toOption.any fun p =>
      p.toJson = .obj [("status", .str "done"), ("context", .null), ("output", .nat 7)] ∧
        p.children.isEmpty ∧ p.context = .null ∧ p.output = some (.nat 7) ∧ p.error = none ∧
        p.input = .null := by decide +kernel
  rw [hstored] at hfields
  obtain ⟨hjson, hchildren, hcontext, houtput, herror, hinput⟩ := of_decide_eq_true hfields
  have hbelow : ∀ {P : PersistedSnapshot → Prop}, ∀ c ∈ stored.children,
      PersistedSnapshot.Everywhere P c.2.snapshot := by
    simp [List.isEmpty_iff.mp hchildren]
  have hplain : stored.Plain := by
    refine ⟨?_, ?_, ?_, ?_⟩ <;> simp [hcontext, houtput, herror, hinput, Json.dedup, Json.nat]
  have htelling : stored.Telling := by
    refine ⟨?_, ?_⟩ <;> simp [houtput, herror, Json.nat]
  have hlegible : stored.toJson.Legible := by
    rw [hjson]
    refine .obj ?_
    simp only [List.forall_mem_cons]
    exact ⟨.str _, .null, .num (Json.exact_int (by decide) (by decide)), by simp⟩
  have hback := htext hlegible (by rw [hjson]; decide)
  rw [hself.mpr ⟨.mk hplain hbelow, .mk htelling hbelow⟩] at hback
  exact ⟨stored, hstored, houtput, hback⟩

set_option maxRecDepth 100000 in
/-- An output that is `null` does not come back. -/
theorem finished_null_lost : ¬∀ (d : Delivery) (s : Session) (a : Actor) (stored : PersistedSnapshot),
    Reached d → d.frames = [] → d.system.actor? s = some a → d.system.store s = .ok stored →
      PersistedSnapshot.ofJson? stored.toJson = some stored := by
  intro hall
  have hidle : (finished .null).frames.isEmpty = true := by decide +kernel
  obtain ⟨a, ha⟩ : ∃ a, (finished .null).system.actor? ⟨0⟩ = some a :=
    Option.isSome_iff_exists.mp (by decide +kernel)
  have hread : ((finished .null).system.store ⟨0⟩).toOption.any fun p =>
      p.output = some .null ∧
        (PersistedSnapshot.ofJson? p.toJson).any fun p => p.output = none := by decide +kernel
  obtain ⟨stored, hstored, -⟩ := System.store_ordered (reached_finished .null).sound.system ha
  have hback := hall _ _ a stored (reached_finished .null) (List.isEmpty_iff.mp hidle) ha hstored
  rw [hstored] at hread
  obtain ⟨houtput, hlost⟩ := of_decide_eq_true hread
  rw [hback] at hlost
  rw [of_decide_eq_true hlost] at houtput
  cases houtput

end Delivery

end Statechart
