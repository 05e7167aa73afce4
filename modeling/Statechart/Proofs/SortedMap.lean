import Mathlib.Order.Lattice
import Statechart.SortedMap

/-!
# Association lists in key order

What looking up, inserting and erasing have to do with each other. `Sorted` is the order that they
keep; a sorted list is determined by what its keys are mapped to (`Sorted.ext`).
-/

namespace Statechart.SortedMap

variable {κ α : Type}

/-! ## Entries -/

section Entries

variable [LT κ] [DecidableLT κ] [DecidableEq κ]

/-- Inserting changes what one key is mapped to. -/
theorem find?_insert (key key' : κ) (value : α) (entries : List (κ × α)) :
    find? key' (insert key value entries) =
      if key = key' then some value else find? key' entries := by
  induction entries with
  | nil => rfl
  | cons entry rest ih =>
      obtain ⟨k, v⟩ := entry
      rw [insert]
      split
      · rfl
      · split
        · rename_i h
          subst h
          simp only [find?_cons]
          split <;> rfl
        · rename_i h
          rw [find?_cons, ih, find?_cons]
          split
          · rename_i h'
            rw [if_neg fun heq => h (h'.trans heq.symm)]
          · rfl

omit [LT κ] [DecidableLT κ] in
theorem mem_of_find? {key : κ} {value : α} {entries : List (κ × α)}
    (h : find? key entries = some value) : (key, value) ∈ entries := by
  induction entries with
  | nil => cases h
  | cons entry rest ih =>
      obtain ⟨k, v⟩ := entry
      rw [find?_cons] at h
      split at h
      · rename_i heq
        cases h
        exact heq ▸ List.mem_cons_self
      · exact List.mem_cons_of_mem _ (ih h)

omit [LT κ] [DecidableLT κ] in
theorem find?_eq_none {key : κ} {entries : List (κ × α)} :
    find? key entries = none ↔ key ∉ entries.map Prod.fst := by
  induction entries with
  | nil => simp [find?]
  | cons entry rest ih =>
      obtain ⟨k, v⟩ := entry
      rw [find?_cons, List.map_cons, List.mem_cons]
      by_cases hk : k = key
      · simp [hk]
      · rw [if_neg hk, ih]
        simp [Ne.symm hk]

omit [LT κ] [DecidableLT κ] in
/-- In a list with different keys, every entry is found. -/
theorem find?_eq_some_iff {entries : List (κ × α)} (hnodup : (entries.map Prod.fst).Nodup)
    {key : κ} {value : α} : find? key entries = some value ↔ (key, value) ∈ entries := by
  constructor
  · exact mem_of_find?
  · intro hmem
    induction entries with
    | nil => cases hmem
    | cons entry rest ih =>
        obtain ⟨k, v⟩ := entry
        obtain ⟨hnew, hrest⟩ := List.nodup_cons.mp hnodup
        rw [find?_cons]
        rcases List.mem_cons.mp hmem with heq | hmem
        · cases heq
          rw [if_pos rfl]
        · have hne : k ≠ key := by
            rintro rfl
            exact hnew (List.mem_map.mpr ⟨_, hmem, rfl⟩)
          rw [if_neg hne, ih hrest hmem]

omit [LT κ] [DecidableLT κ] in
theorem find?_singleton {key k : κ} {value v : α} :
    find? key [(k, v)] = some value ↔ k = key ∧ v = value := by
  rw [find?_cons]
  by_cases hk : k = key <;> simp [hk, find?]

omit [LT κ] [DecidableLT κ] in
/-- To leave out entries by their keys changes nothing about the other keys. -/
theorem find?_filter (p : κ → Bool) (key : κ) (entries : List (κ × α)) :
    find? key (entries.filter fun e => p e.1) = if p key then find? key entries else none := by
  induction entries with
  | nil => exact (ite_self _).symm
  | cons entry rest ih =>
      obtain ⟨k, v⟩ := entry
      rw [List.filter_cons]
      by_cases hk : k = key
      · subst hk
        split <;> rename_i hp
        · rw [find?_cons, if_pos rfl, find?_cons, if_pos rfl]
        · rw [ih, if_neg hp]
      · rw [find?_cons, if_neg hk, ← ih]
        split
        · rw [find?_cons, if_neg hk]
        · rfl

/-- Inserting adds an entry and keeps those of other keys. -/
theorem mem_insert {key : κ} {value : α} {entries : List (κ × α)} {e : κ × α}
    (h : e ∈ insert key value entries) : e = (key, value) ∨ e ∈ entries := by
  induction entries with
  | nil =>
      left
      simpa only [insert, List.mem_singleton] using h
  | cons entry rest ih =>
      obtain ⟨k, v⟩ := entry
      rw [insert] at h
      split at h
      · exact List.mem_cons.mp h
      · split at h
        · exact (List.mem_cons.mp h).imp_right (List.mem_cons_of_mem _)
        · rcases List.mem_cons.mp h with rfl | h
          · exact .inr List.mem_cons_self
          · exact (ih h).imp_right (List.mem_cons_of_mem _)

/-- Inserting a new key adds one entry. -/
theorem perm_insert {key : κ} {value : α} {entries : List (κ × α)}
    (hnew : ∀ e ∈ entries, e.1 ≠ key) :
    (insert key value entries).Perm ((key, value) :: entries) := by
  induction entries with
  | nil => exact .refl _
  | cons entry rest ih =>
      obtain ⟨k, v⟩ := entry
      rw [insert]
      split
      · exact .refl _
      · rw [if_neg (hnew (k, v) List.mem_cons_self)]
        exact ((ih fun e he => hnew e (List.mem_cons_of_mem _ he)).cons _).trans (.swap _ _ _)

/-- A list with different keys is only brought into order. -/
theorem perm_ofList {entries : List (κ × α)} (hnodup : (entries.map Prod.fst).Nodup) :
    (ofList entries).Perm entries := by
  have hfold : ∀ (entries done : List (κ × α)), (entries.map Prod.fst).Nodup →
      (∀ e ∈ entries, ∀ e' ∈ done, e'.1 ≠ e.1) →
      (entries.foldl (fun done entry => insert entry.1 entry.2 done) done).Perm
        (done ++ entries) := by
    intro entries
    induction entries with
    | nil => simp
    | cons entry rest ih =>
        intro done hnodup hnew
        rw [List.map_cons, List.nodup_cons] at hnodup
        have hperm : (insert entry.1 entry.2 done).Perm _ :=
          perm_insert (hnew entry List.mem_cons_self)
        rw [List.foldl_cons]
        refine (ih _ hnodup.2 fun e he e' he' => ?_).trans ?_
        · rcases List.mem_cons.mp (hperm.mem_iff.mp he') with rfl | he'
          · exact fun heq => hnodup.1 (List.mem_map.mpr ⟨e, he, heq.symm⟩)
          · exact hnew e (List.mem_cons_of_mem _ he) e' he'
        · exact (hperm.append_right rest).trans List.perm_middle.symm
  exact hfold entries [] hnodup (by simp)

/-- A list that is brought into order has no other entries than before. -/
theorem mem_ofList {entries : List (κ × α)} {e : κ × α} (h : e ∈ ofList entries) :
    e ∈ entries := by
  -- The induction is on what is left, so what is done already has to vary.
  have hfold : ∀ (entries done : List (κ × α)),
      e ∈ entries.foldl (fun done entry => insert entry.1 entry.2 done) done →
        e ∈ done ∨ e ∈ entries := by
    intro entries
    induction entries with
    | nil => exact fun done he => .inl he
    | cons entry rest ih =>
        intro done he
        rcases ih _ he with he | he
        · rcases mem_insert he with rfl | he
          · exact .inr List.mem_cons_self
          · exact .inl he
        · exact .inr (List.mem_cons_of_mem _ he)
  exact (hfold entries [] h).resolve_left List.not_mem_nil

omit [LT κ] [DecidableLT κ] in
theorem mem_erase {key : κ} {entries : List (κ × α)} {e : κ × α} :
    e ∈ erase key entries ↔ e ∈ entries ∧ e.1 ≠ key := by
  simp [erase]

end Entries

/-! ## Order -/

/-- The keys increase. -/
def Sorted [LT κ] (entries : List (κ × α)) : Prop := entries.Pairwise fun e e' => e.1 < e'.1

section Order

variable [LinearOrder κ]

theorem sorted_nil : Sorted ([] : List (κ × α)) := .nil

theorem Sorted.insert {entries : List (κ × α)} (h : Sorted entries) (key : κ) (value : α) :
    Sorted (SortedMap.insert key value entries) := by
  induction entries with
  | nil => exact List.pairwise_singleton _ _
  | cons entry rest ih =>
      obtain ⟨k, v⟩ := entry
      obtain ⟨hhead, hrest⟩ := List.pairwise_cons.mp h
      rw [SortedMap.insert]
      split
      · rename_i hlt
        refine .cons (fun e he => ?_) h
        rcases List.mem_cons.mp he with rfl | he
        · exact hlt
        · exact lt_trans hlt (hhead e he)
      · rename_i hge
        split
        · rename_i heq
          subst heq
          exact .cons hhead hrest
        · rename_i hne
          refine .cons (fun e he => ?_) (ih hrest)
          rcases mem_insert he with rfl | he
          · exact lt_of_le_of_ne (not_lt.mp hge) hne
          · exact hhead e he

theorem Sorted.erase {entries : List (κ × α)} (h : Sorted entries) (key : κ) :
    Sorted (SortedMap.erase key entries) := h.filter _

theorem Sorted.nodup_keys {entries : List (κ × α)} (h : Sorted entries) :
    (entries.map Prod.fst).Nodup :=
  List.pairwise_map.mpr (List.Pairwise.imp (fun hlt => ne_of_lt hlt) h)

/-- In a sorted list, every entry is found. -/
theorem Sorted.find?_eq_some {entries : List (κ × α)} (h : Sorted entries) {key : κ} {value : α} :
    find? key entries = some value ↔ (key, value) ∈ entries := find?_eq_some_iff h.nodup_keys

/-- Inserting keeps the entries of other keys. -/
theorem Sorted.mem_insert_of_ne {entries : List (κ × α)} (h : Sorted entries) {key : κ} {value : α}
    {e : κ × α} (he : e ∈ entries) (hne : e.1 ≠ key) : e ∈ SortedMap.insert key value entries := by
  refine mem_of_find? ?_
  rw [find?_insert, if_neg hne.symm]
  exact h.find?_eq_some.mpr he

/-- A key has one value. -/
theorem Sorted.value_eq {entries : List (κ × α)} (h : Sorted entries) {e : κ × α} {value : α}
    (he : e ∈ entries) (hfind : find? e.1 entries = some value) : e.2 = value := by
  rw [h.find?_eq_some.mpr he] at hfind
  exact Option.some.inj hfind

/-- Inserting a key beyond all others puts it at the end. -/
theorem insert_last {entries : List (κ × α)} {key : κ} (hlast : ∀ e ∈ entries, e.1 < key)
    (value : α) : insert key value entries = entries ++ [(key, value)] := by
  induction entries with
  | nil => rfl
  | cons entry rest ih =>
      obtain ⟨k, v⟩ := entry
      have hlt : k < key := hlast (k, v) List.mem_cons_self
      rw [insert, if_neg (lt_asymm hlt), if_neg (ne_of_lt hlt),
        ih fun e he => hlast e (List.mem_cons_of_mem _ he), List.cons_append]

/-- Sorted lists with the same entries are equal. -/
theorem Sorted.ext {entries entries' : List (κ × α)} (h : Sorted entries) (h' : Sorted entries')
    (hmem : ∀ e, e ∈ entries ↔ e ∈ entries') : entries = entries' := by
  have hnodup : ∀ {xs : List (κ × α)}, Sorted xs → xs.Nodup := by
    intro xs hs
    refine List.Pairwise.imp (fun {a b} hlt heq => ?_) hs
    subst heq
    exact lt_irrefl _ hlt
  refine ((List.perm_ext_iff_of_nodup (hnodup h) (hnodup h')).mpr hmem).eq_of_pairwise
    (fun a b _ _ hab hba => absurd (lt_trans hab hba) (lt_irrefl _)) h h'

theorem sorted_ofList (entries : List (κ × α)) : Sorted (ofList entries) := by
  have hfold : ∀ (entries done : List (κ × α)), Sorted done →
      Sorted (entries.foldl (fun done entry => insert entry.1 entry.2 done) done) := by
    intro entries
    induction entries with
    | nil => exact fun done h => h
    | cons entry rest ih => exact fun done h => ih _ (h.insert entry.1 entry.2)
  exact hfold entries [] sorted_nil

/-- A sorted list is in order already. -/
theorem Sorted.ofList_eq {entries : List (κ × α)} (h : Sorted entries) : ofList entries = entries :=
  (sorted_ofList entries).ext h fun _ => (perm_ofList h.nodup_keys).mem_iff

omit [LinearOrder κ] in
theorem sorted_iff_keys [LT κ] {entries : List (κ × α)} :
    Sorted entries ↔ (entries.map Prod.fst).Pairwise (· < ·) := List.pairwise_map.symm

end Order

end Statechart.SortedMap
