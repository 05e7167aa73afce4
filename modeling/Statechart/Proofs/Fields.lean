import Statechart.Definition.Reader
import Statechart.Definition.Writer
import Statechart.Proofs.Build

/-!
# Fields that are written and read again

What a reader of one field finds after the writer of that field. Free-form values are read without
repeated fields, and reading them again changes nothing (`dedup_dedup`). A record is readable if the
keys it was written with are some of its field names, in order (`objectRecord?_obj`). A field that
is left out because it is absent, `null` or empty is read as such again, and any other one as what
its own value is read as.
-/

namespace Statechart.Json

/-! ## Free-form values -/

/-- Fields with keys of their own, whose values repeat none either. -/
def Single (fields : List (String × Json)) : Prop :=
  (fields.map Prod.fst).Nodup ∧ ∀ field ∈ fields, dedup field.2 = field.2

theorem mem_keys_setField {key other : String} {value : Json} {fields : List (String × Json)} :
    other ∈ (setField key value fields).map Prod.fst ↔
      other = key ∨ other ∈ fields.map Prod.fst := by
  induction fields with
  | nil => simp [setField]
  | cons head rest ih =>
      obtain ⟨k, v⟩ := head
      by_cases h : k = key
      · subst h
        simp [setField]
      · simp only [setField, if_neg h, List.map_cons, List.mem_cons, ih]
        exact or_left_comm

theorem Single.setField {fields : List (String × Json)} (h : Single fields) {value : Json}
    (hvalue : dedup value = value) (key : String) : Single (setField key value fields) := by
  induction fields with
  | nil => exact ⟨by simp [Json.setField], by simpa [Json.setField] using hvalue⟩
  | cons head rest ih =>
      obtain ⟨k, v⟩ := head
      obtain ⟨hkeys, hvalues⟩ := h
      rw [List.map_cons, List.nodup_cons] at hkeys
      by_cases hk : k = key
      · subst hk
        rw [Json.setField, if_pos rfl]
        refine ⟨List.nodup_cons.mpr hkeys, fun field hfield => ?_⟩
        rcases List.mem_cons.mp hfield with rfl | hfield
        · exact hvalue
        · exact hvalues field (List.mem_cons_of_mem _ hfield)
      · rw [Json.setField, if_neg hk]
        obtain ⟨hrest, hmore⟩ :=
          ih ⟨hkeys.2, fun field hfield => hvalues field (List.mem_cons_of_mem _ hfield)⟩
        refine ⟨List.nodup_cons.mpr ⟨fun hmem => ?_, hrest⟩, fun field hfield => ?_⟩
        · rcases mem_keys_setField.mp hmem with heq | hmem
          · exact hk heq
          · exact hkeys.1 hmem
        · rcases List.mem_cons.mp hfield with rfl | hfield
          · exact hvalues _ List.mem_cons_self
          · exact hmore field hfield

theorem setField_of_not_mem {key : String} (value : Json) {fields : List (String × Json)}
    (h : key ∉ fields.map Prod.fst) : setField key value fields = fields ++ [(key, value)] := by
  induction fields with
  | nil => rfl
  | cons head rest ih =>
      obtain ⟨k, v⟩ := head
      rw [List.map_cons, List.mem_cons, not_or] at h
      rw [setField, if_neg (Ne.symm h.1), ih h.2, List.cons_append]

/-- Fields that repeat nothing are kept as they are. -/
theorem dedupFields_of_single : ∀ (fields done : List (String × Json)), Single (done ++ fields) →
    dedupFields done fields = done ++ fields
  | [], done, _ => by rw [dedupFields, List.append_nil]
  | (k, j) :: rest, done, h => by
      have hj : dedup j = j := h.2 (k, j) (by simp)
      have hk : k ∉ done.map Prod.fst := by
        have hkeys := h.1
        rw [List.map_append, List.nodup_append'] at hkeys
        exact fun hmem => hkeys.2.2 hmem (by simp)
      have hstep : done ++ [(k, j)] ++ rest = done ++ (k, j) :: rest := by simp
      rw [dedupFields, hj, setField_of_not_mem j hk,
        dedupFields_of_single rest (done ++ [(k, j)]) (by rwa [hstep]), hstep]

mutual

/-- Repeated fields are gone after the first time. -/
theorem dedup_dedup : ∀ j : Json, dedup (dedup j) = dedup j
  | .arr items => by rw [dedup, dedup, dedupItems_dedupItems items]
  | .obj fields => by
      have h := single_dedupFields fields [] ⟨.nil, by simp⟩
      rw [dedup, dedup, dedupFields_of_single _ [] (by simpa using h), List.nil_append]
  | .null => rfl
  | .bool _ => rfl
  | .num _ => rfl
  | .str _ => rfl

theorem dedupItems_dedupItems : ∀ items : List Json,
    dedupItems (dedupItems items) = dedupItems items
  | [] => rfl
  | j :: js => by rw [dedupItems, dedupItems, dedup_dedup j, dedupItems_dedupItems js]

theorem single_dedupFields : ∀ fields done : List (String × Json), Single done →
    Single (dedupFields done fields)
  | [], _, h => h
  | (k, j) :: rest, _, h => single_dedupFields rest _ (h.setField (dedup_dedup j) k)

end

theorem dedup_ne_null {j : Json} (h : j ≠ .null) : dedup j ≠ .null := by
  cases j <;> simp_all [dedup]

theorem any?_of_any? {j a : Json} (h : any? j = some a) : any? a = some a := by
  cases h
  rw [any?, dedup_dedup]

/-! ## Looking written fields up -/

@[simp] theorem field?_append (key : String) (fields more : List (String × Json)) :
    field? key (fields ++ more) = (field? key fields).or (field? key more) := by
  induction fields with
  | nil => rfl
  | cons head rest ih =>
      obtain ⟨k, v⟩ := head
      by_cases h : k = key <;> simp [field?, h, ih]

/-! ## Keys that records are written with -/

/-- The fields stand for some of the names, in the order of these. -/
def Writes (names : List String) (fields : List (String × Json)) : Prop :=
  (fields.map Prod.fst).Sublist names

namespace Writes

variable {α : Type} {names more : List String} {fields rest : List (String × Json)}

theorem append (h : Writes names fields) (h' : Writes more rest) :
    Writes (names ++ more) (fields ++ rest) := by
  rw [Writes, List.map_append]
  exact List.Sublist.append h h'

theorem field (key : String) (value : Json) : Writes [key] [(key, value)] := List.Sublist.refl _

theorem cons (key : String) (value : Json) (h : Writes names fields) :
    Writes (key :: names) ((key, value) :: fields) := List.Sublist.cons_cons _ h

theorem optionalField (key : String) (write : α → Json) (x : Option α) :
    Writes [key] (optionalField key write x) := by
  cases x <;> simp [Writes, Json.optionalField]

theorem nonNullField (key : String) (j : Json) : Writes [key] (nonNullField key j) := by
  cases j <;> simp [Writes, Json.nonNullField, isNull]

theorem listField (key : String) (write : α → Json) (xs : List α) :
    Writes [key] (listField key write xs) := by
  cases xs <;> simp [Writes, Json.listField]

theorem flag (key : String) (value : Json) (b : Bool) :
    Writes [key] (if b then [(key, value)] else []) := by
  cases b <;> simp [Writes]

theorem not_mem (h : Writes names fields) {key : String} (hkey : key ∉ names) :
    ∀ field ∈ fields, field.1 ≠ key := by
  intro field hfield heq
  exact hkey (h.subset (heq ▸ List.mem_map_of_mem hfield))

/-- What is not among the names was not written. -/
theorem field?_eq_none (h : Writes names fields) {key : String} (hkey : key ∉ names) :
    field? key fields = none := by
  have hne := h.not_mem hkey
  clear h
  induction fields with
  | nil => rfl
  | cons head rest ih =>
      obtain ⟨k, v⟩ := head
      rw [field?, if_neg (hne _ List.mem_cons_self)]
      exact ih fun field hfield => hne field (List.mem_cons_of_mem _ hfield)

/-- Each field that was written is found by its key. -/
theorem field?_of_mem (h : Writes names fields) (hnames : names.Nodup) {f : String × Json}
    (hf : f ∈ fields) : field? f.1 fields = some f.2 := by
  have hnodup := h.nodup hnames
  clear h
  induction fields with
  | nil => cases hf
  | cons head rest ih =>
      obtain ⟨hnew, hrest⟩ := List.nodup_cons.mp hnodup
      rcases List.mem_cons.mp hf with rfl | hf
      · exact if_pos rfl
      · have hne : head.1 ≠ f.1 := fun heq => hnew (heq ▸ List.mem_map_of_mem hf)
        rw [field?, if_neg hne, ih hf hrest]

end Writes

section

variable {α : Type} {write : α → Json} {key other : String} (h : other ≠ key)
include h

@[simp] theorem field?_optionalField_of_ne (x : Option α) :
    field? key (optionalField other write x) = none :=
  (Writes.optionalField other write x).field?_eq_none (by simpa using h.symm)

@[simp] theorem field?_nonNullField_of_ne (j : Json) : field? key (nonNullField other j) = none :=
  (Writes.nonNullField other j).field?_eq_none (by simpa using h.symm)

@[simp] theorem field?_listField_of_ne (xs : List α) :
    field? key (listField other write xs) = none :=
  (Writes.listField other write xs).field?_eq_none (by simpa using h.symm)

theorem field?_flag_of_ne (value : Json) (b : Bool) :
    field? key (if b then [(other, value)] else []) = none :=
  (Writes.flag other value b).field?_eq_none (by simpa using h.symm)

end

@[simp] theorem field?_optionalField_self {α : Type} (key : String) (write : α → Json)
    (x : Option α) : field? key (optionalField key write x) = x.map write := by
  cases x <;> simp [optionalField, field?]

theorem repeats_of_nodup {fields : List (String × Json)} (h : (fields.map Prod.fst).Nodup)
    (key : String) : repeats key fields = false := by
  have hcount := List.nodup_iff_count_le_one.mp h key
  rw [List.count, List.countP_map, List.countP_eq_length_filter] at hcount
  simp only [repeats, decide_eq_false_iff_not, not_lt]
  refine Nat.le_trans (Nat.le_of_eq ?_) hcount
  congr 1

/-- An object with keys of its own is a record of any kind. -/
theorem objectRecord?_of_nodup {fields : List (String × Json)}
    (h : (fields.map Prod.fst).Nodup) (names : List String) :
    objectRecord? names (.obj fields) = some fun name => field? name fields := by
  have hno : (names.any fun name => repeats name fields) = false :=
    List.any_eq_false.mpr fun name _ => by simp [repeats_of_nodup h name]
  rw [objectRecord?, hno]
  rfl

/-- A written record is read by looking its fields up. -/
theorem objectRecord?_obj {names : List String} {fields : List (String × Json)}
    (h : Writes names fields) (hnames : names.Nodup) :
    objectRecord? names (.obj fields) = some fun name => field? name fields :=
  objectRecord?_of_nodup (h.nodup hnames) names

theorem record?_obj {names : List String} {fields : List (String × Json)}
    (h : Writes names fields) (hnames : names.Nodup) :
    record? names (.obj fields) = some fun name => field? name fields :=
  objectRecord?_obj h hnames

/-- A record without a field is not read where that field has to be there. -/
theorem bind_required?_eq_none {α β : Type} {name : String} {fields : List (String × Json)}
    (h : field? name fields = none) (names : List String) (read : Json → Option α) (f : α → β) :
    ((objectRecord? names (.obj fields)).bind fun field =>
      (required? read (field name)).map f) = none := by
  rw [objectRecord?]
  split
  · rfl
  · simp [h, required?]

/-! ## Reading written fields -/

section

variable {α : Type} {read : Json → Option α} {write : α → Json} {f : α → α}

@[simp] theorem required?_some (j : Json) : required? read (some j) = read j := rfl

@[simp] theorem defaulted?_some (a : α) (j : Json) : defaulted? a read (some j) = read j := rfl

@[simp] theorem defaulted?_none (a : α) : defaulted? a read none = some a := rfl

theorem readAll?_map {xs : List α} (h : ∀ x ∈ xs, read (write x) = some (f x)) :
    readAll? read (xs.map write) = some (xs.map f) := by
  induction xs with
  | nil => rfl
  | cons x rest ih =>
      have hx := h x List.mem_cons_self
      have hrest := ih fun y hy => h y (List.mem_cons_of_mem _ hy)
      simp [readAll?, hx, hrest]

theorem readAll?_map_self {xs : List α} (h : ∀ x ∈ xs, read (write x) = some x) :
    readAll? read (xs.map write) = some xs := by
  have hall : ∀ x ∈ xs, read (write x) = some (id x) := h
  simpa using readAll?_map hall

theorem exists_of_readAll? : ∀ {js : List Json} {xs : List α}, readAll? read js = some xs →
    ∀ x ∈ xs, ∃ j, read j = some x
  | [], xs, h => by
      cases h
      simp
  | j :: js, xs, h => by
      simp only [readAll?, Option.bind_eq_bind, Option.bind_eq_some_iff, Option.some.injEq] at h
      obtain ⟨a, ha, rest, hrest, rfl⟩ := h
      intro x hx
      rcases List.mem_cons.mp hx with rfl | hx
      · exact ⟨j, ha⟩
      · exact exists_of_readAll? hrest x hx

theorem exists_of_array? {j : Json} {xs : List α} (h : array? read j = some xs) :
    ∀ x ∈ xs, ∃ j, read j = some x := by
  cases j with
  | arr items => exact exists_of_readAll? h
  | _ => cases h

theorem exists_of_oneOrMany? {j : Json} {xs : List α} (h : oneOrMany? read j = some xs) :
    ∀ x ∈ xs, ∃ j, read j = some x := by
  unfold oneOrMany? at h
  split at h
  · rename_i items hitems
    cases h
    exact exists_of_array? hitems
  · obtain ⟨a, ha, rfl⟩ := Option.map_eq_some_iff.mp h
    simpa using ⟨j, ha⟩

theorem exists_of_list {field : Option Json} {xs : List α}
    (h : defaulted? [] (oneOrMany? read) field = some xs) : ∀ x ∈ xs, ∃ j, read j = some x := by
  cases field with
  | none =>
      cases h
      simp
  | some j => exact exists_of_oneOrMany? h

theorem exists_of_required? {field : Option Json} {a : α} (h : required? read field = some a) :
    ∃ j, read j = some a := by
  cases field with
  | none => cases h
  | some j => exact ⟨j, h⟩

/-- A written list is read item by item. -/
theorem defaulted?_listField {key : String} {xs : List α}
    (h : ∀ x ∈ xs, read (write x) = some (f x)) :
    defaulted? [] (oneOrMany? read) (field? key (listField key write xs)) = some (xs.map f) := by
  cases xs with
  | nil => rfl
  | cons x rest =>
      have hall := readAll?_map h
      rw [listField, field?, if_pos rfl, defaulted?, oneOrMany?, array?, hall]
      exact List.cons_ne_nil x rest

theorem exists_of_optional? {field : Option Json} {x : Option α}
    (h : optional? read field = some x) : ∀ a ∈ x, ∃ j, j ≠ .null ∧ read j = some a := by
  unfold optional? at h
  split at h
  · cases h
    simp
  · cases h
    simp
  · rename_i j hj
    obtain ⟨a, ha, rfl⟩ := Option.map_eq_some_iff.mp h
    simpa using ⟨j, hj, ha⟩

/-- A written optional field is read as what its value is read as. -/
theorem optional?_map {x : Option α} (h : ∀ a ∈ x, write a ≠ .null ∧ read (write a) = some (f a)) :
    optional? read (x.map write) = some (x.map f) := by
  cases x with
  | none => rfl
  | some a =>
      obtain ⟨hne, ha⟩ := h a rfl
      have hread : optional? read (some (write a)) = (read (write a)).map some := by
        unfold optional?
        split
        · cases ‹some _ = none›
        · exact absurd (Option.some.inj ‹_›) hne
        · rename_i j _ hj
          rw [Option.some.inj hj]
      rw [Option.map_some, hread, ha]
      rfl

theorem optional?_map_self {x : Option α}
    (h : ∀ a ∈ x, write a ≠ .null ∧ read (write a) = some a) :
    optional? read (x.map write) = some x := by
  have hall : ∀ a ∈ x, write a ≠ .null ∧ read (write a) = some (id a) := h
  simpa using optional?_map hall

end

theorem optional?_any {field : Option Json} {x : Option Json} (h : optional? any? field = some x) :
    optional? any? x = some x := by
  have hself : optional? any? (x.map fun j => j) = some x := optional?_map_self fun a ha => by
    obtain ⟨j, hne, hj⟩ := exists_of_optional? h a ha
    refine ⟨?_, any?_of_any? hj⟩
    cases hj
    exact dedup_ne_null hne
  simpa using hself

theorem asStr?_str (text : String) : asStr? (.str text) = some text := rfl

theorem optional?_str (x : Option String) : optional? asStr? (x.map .str) = some x := by
  cases x <;> rfl

theorem defaulted?_strings (key : String) (xs : List String) :
    defaulted? [] (oneOrMany? asStr?) (field? key (listField key .str xs)) = some xs := by
  have hall : ∀ s ∈ xs, asStr? (.str s) = some (id s) := fun _ _ => rfl
  simpa using defaulted?_listField hall

/-- A free-form field that is left out is read as `null`. -/
theorem defaulted?_nonNullField {field : Option Json} {key : String} {j : Json}
    (h : defaulted? .null any? field = some j) :
    defaulted? .null any? (field? key (nonNullField key j)) = some j := by
  have hj : any? j = some j := by
    cases field with
    | none =>
        cases h
        rfl
    | some i => exact any?_of_any? h
  cases j with
  | null => rfl
  | _ => simpa [nonNullField, isNull, field?, defaulted?] using hj

theorem defaulted?_flag (key : String) (b : Bool) :
    defaulted? false asBool? (field? key (if b then [(key, .bool true)] else [])) = some b := by
  cases b <;> simp [field?, defaulted?, asBool?]

/-! ## Entries -/

section

variable {α : Type} {read : Json → Option α} {write : α → Json} {f : α → α}

/-- Written entries are read one by one. -/
theorem entries?_entriesToJson {xs : List (String × α)} (hkeys : (xs.map Prod.fst).Nodup)
    (h : ∀ x ∈ xs, read (write x.2) = some (f x.2)) :
    entries? read (entriesToJson write xs) = some (xs.map fun x => (x.1, f x.2)) := by
  have hkeys' : (xs.map fun x => (x.1, write x.2)).map Prod.fst = xs.map Prod.fst := by
    simp [Function.comp_def]
  have hno : ((xs.map fun x => (x.1, write x.2)).any fun field =>
      repeats field.1 (xs.map fun x => (x.1, write x.2))) = false :=
    List.any_eq_false.mpr fun field _ => by
      simp [repeats_of_nodup (hkeys'.symm ▸ hkeys) field.1]
  rw [entriesToJson, entries?, hno, if_neg Bool.false_ne_true]
  clear hkeys hkeys' hno
  induction xs with
  | nil => rfl
  | cons x rest ih =>
      have hx := h x List.mem_cons_self
      have hrest := ih fun y hy => h y (List.mem_cons_of_mem _ hy)
      simp [entries?.readAll, hx, hrest]

end

/-! ## Depths -/

theorem depth_le_of_mem_items {j : Json} {items : List Json} (h : j ∈ items) :
    j.depth ≤ depthItems items := by
  induction items with
  | nil => cases h
  | cons head rest ih =>
      rw [depthItems]
      rcases List.mem_cons.mp h with rfl | h
      · exact Nat.le_max_left _ _
      · exact Nat.le_trans (ih h) (Nat.le_max_right _ _)

theorem depth_le_of_mem_fields {field : String × Json} {fields : List (String × Json)}
    (h : field ∈ fields) : field.2.depth ≤ depthFields fields := by
  induction fields with
  | nil => cases h
  | cons head rest ih =>
      obtain ⟨k, v⟩ := head
      rw [depthFields]
      rcases List.mem_cons.mp h with rfl | h
      · exact Nat.le_max_left _ _
      · exact Nat.le_trans (ih h) (Nat.le_max_right _ _)

end Statechart.Json
