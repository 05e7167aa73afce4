/-!
# Sets of positions

A finite set of natural numbers as the bits of one number, so that sets with the same elements are
equal. `toList` lists the elements from least to greatest.
-/

namespace Statechart

structure NodeSet where
  bits : Nat
deriving DecidableEq, Inhabited

namespace NodeSet

def contains (s : NodeSet) (i : Nat) : Bool := s.bits.testBit i

instance : Membership Nat NodeSet where
  mem s i := s.contains i = true

instance (i : Nat) (s : NodeSet) : Decidable (i ∈ s) :=
  inferInstanceAs (Decidable (s.contains i = true))

def empty : NodeSet := ⟨0⟩

def isEmpty (s : NodeSet) : Bool := s.bits == 0

def insert (s : NodeSet) (i : Nat) : NodeSet := ⟨s.bits ||| 1 <<< i⟩

def erase (s : NodeSet) (i : Nat) : NodeSet :=
  if s.contains i then ⟨s.bits ^^^ 1 <<< i⟩ else s

def union (s t : NodeSet) : NodeSet := ⟨s.bits ||| t.bits⟩

def disjoint (s t : NodeSet) : Bool := s.bits &&& t.bits == 0

def insertAll (s : NodeSet) (is : List Nat) : NodeSet := is.foldl insert s

def ofList (is : List Nat) : NodeSet := empty.insertAll is

/-- The elements from least to greatest. -/
def toList (s : NodeSet) : List Nat := (List.range (s.bits.log2 + 1)).filter s.contains

/-! ## Elements -/

theorem mem_def (i : Nat) (s : NodeSet) : i ∈ s ↔ s.bits.testBit i = true := Iff.rfl

@[simp] theorem contains_eq_true (i : Nat) (s : NodeSet) : s.contains i = true ↔ i ∈ s := Iff.rfl

theorem ext {s t : NodeSet} (h : ∀ i, i ∈ s ↔ i ∈ t) : s = t := by
  have : s.bits = t.bits := Nat.eq_of_testBit_eq fun i => by
    have := h i
    rw [mem_def, mem_def] at this
    exact Bool.eq_iff_iff.2 this
  cases s
  cases t
  simp_all

@[simp] theorem not_mem_empty (i : Nat) : i ∉ empty := by
  simp [mem_def, empty]

@[simp] theorem mem_insert (s : NodeSet) (i j : Nat) : j ∈ s.insert i ↔ j = i ∨ j ∈ s := by
  simp only [mem_def, insert, Nat.one_shiftLeft, Nat.testBit_or, Nat.testBit_two_pow,
    Bool.or_eq_true, decide_eq_true_eq]
  constructor
  · rintro (h | h)
    · exact .inr h
    · exact .inl h.symm
  · rintro (h | h)
    · exact .inr h.symm
    · exact .inl h

@[simp] theorem mem_erase (s : NodeSet) (i j : Nat) : j ∈ s.erase i ↔ j ≠ i ∧ j ∈ s := by
  unfold erase
  split
  · rename_i h
    simp only [mem_def, Nat.one_shiftLeft, Nat.testBit_xor, Nat.testBit_two_pow]
    have hi : s.bits.testBit i = true := h
    by_cases hj : i = j
    · subst hj
      simp [hi]
    · simp [hj, Ne.symm hj]
  · rename_i h
    constructor
    · intro hj
      exact ⟨fun e => h (e ▸ hj), hj⟩
    · exact And.right

@[simp] theorem mem_union (s t : NodeSet) (i : Nat) : i ∈ s.union t ↔ i ∈ s ∨ i ∈ t := by
  simp [mem_def, union]

@[simp] theorem mem_insertAll (s : NodeSet) (is : List Nat) (j : Nat) :
    j ∈ s.insertAll is ↔ j ∈ is ∨ j ∈ s := by
  unfold insertAll
  induction is generalizing s with
  | nil => simp
  | cons i rest ih =>
      simp only [List.foldl_cons, ih, mem_insert, List.mem_cons]
      constructor
      · rintro (h | h | h)
        · exact .inl (.inr h)
        · exact .inl (.inl h)
        · exact .inr h
      · rintro ((h | h) | h)
        · exact .inr (.inl h)
        · exact .inl h
        · exact .inr (.inr h)

@[simp] theorem mem_ofList (is : List Nat) (j : Nat) : j ∈ ofList is ↔ j ∈ is := by
  simp [ofList]

theorem lt_of_mem {s : NodeSet} {i : Nat} (h : i ∈ s) : i < s.bits.log2 + 1 := by
  apply Nat.lt_of_not_ge
  intro hge
  have hlt : s.bits < 2 ^ i :=
    Nat.lt_of_lt_of_le Nat.lt_log2_self (Nat.pow_le_pow_right (by decide) hge)
  rw [mem_def, Nat.testBit_lt_two_pow hlt] at h
  exact absurd h (by decide)

@[simp] theorem mem_toList (s : NodeSet) (i : Nat) : i ∈ s.toList ↔ i ∈ s := by
  simp only [toList, List.mem_filter, List.mem_range, contains_eq_true]
  exact ⟨And.right, fun h => ⟨lt_of_mem h, h⟩⟩

theorem sorted_toList (s : NodeSet) : s.toList.Pairwise (· < ·) :=
  List.pairwise_lt_range.filter _

theorem nodup_toList (s : NodeSet) : s.toList.Nodup :=
  s.sorted_toList.imp Nat.ne_of_lt

end NodeSet

end Statechart
