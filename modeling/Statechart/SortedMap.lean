/-!
# Association lists in key order

A finite map as a list of entries with increasing keys. `insert` replaces the entry of a key that is
there already, so a list built by `ofList` gives every key its last value.
-/

namespace Statechart.SortedMap

variable {κ α : Type} [LT κ] [DecidableLT κ] [DecidableEq κ]

/-- The value of a key. -/
def find? (key : κ) : List (κ × α) → Option α
  | [] => none
  | (k, v) :: rest => if k = key then some v else find? key rest

/-- Whether a key has a value. -/
def has (key : κ) (entries : List (κ × α)) : Bool := (find? key entries).isSome

def insert (key : κ) (value : α) : List (κ × α) → List (κ × α)
  | [] => [(key, value)]
  | (k, v) :: rest =>
      if key < k then (key, value) :: (k, v) :: rest
      else if k = key then (key, value) :: rest
      else (k, v) :: insert key value rest

def erase (key : κ) (entries : List (κ × α)) : List (κ × α) :=
  entries.filter fun entry => entry.1 ≠ key

def ofList (entries : List (κ × α)) : List (κ × α) :=
  entries.foldl (fun done entry => insert entry.1 entry.2 done) []

omit [LT κ] [DecidableLT κ] in
theorem find?_cons (key k : κ) (v : α) (rest : List (κ × α)) :
    find? key ((k, v) :: rest) = if k = key then some v else find? key rest := rfl

end Statechart.SortedMap

namespace Statechart.SortedSet

variable {α : Type} [LT α] [DecidableLT α] [DecidableEq α]

/-- Puts an element into a list in increasing order, unless it is there. -/
def insert (a : α) : List α → List α
  | [] => [a]
  | b :: rest =>
      if a < b then a :: b :: rest
      else if a = b then b :: rest
      else b :: insert a rest

/-- The elements in increasing order, each once. -/
def ofList (as : List α) : List α := as.foldl (fun done a => insert a done) []

@[simp] theorem mem_insert (a b : α) (as : List α) : b ∈ insert a as ↔ b = a ∨ b ∈ as := by
  induction as with
  | nil => simp [insert]
  | cons c rest ih =>
      unfold insert
      split
      · simp
      · split
        · rename_i h
          subst h
          simp
        · simp [ih, or_left_comm]

end Statechart.SortedSet
