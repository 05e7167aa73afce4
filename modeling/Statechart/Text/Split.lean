/-!
# Splitting at a character

`splitAt sep` cuts a text at every `sep`; there is always one piece more than there are cuts, so the
empty text has one empty piece. `joinWith` puts the pieces together again.
-/

namespace Statechart.Text

/-- The pieces between the occurrences of `sep`. -/
def splitAt (sep : Char) : List Char → List (List Char)
  | [] => [[]]
  | c :: rest =>
      if c = sep then [] :: splitAt sep rest
      else match splitAt sep rest with
        | [] => [[c]]
        | piece :: pieces => (c :: piece) :: pieces

/-- The pieces with `sep` between them. -/
def joinWith (sep : Char) : List (List Char) → List Char
  | [] => []
  | [piece] => piece
  | piece :: pieces => piece ++ sep :: joinWith sep pieces

theorem splitAt_ne_nil (sep : Char) (cs : List Char) : splitAt sep cs ≠ [] := by
  cases cs with
  | nil => simp [splitAt]
  | cons c rest =>
      unfold splitAt
      split
      · simp
      · split <;> simp

theorem joinWith_splitAt (sep : Char) (cs : List Char) : joinWith sep (splitAt sep cs) = cs := by
  induction cs with
  | nil => rfl
  | cons c rest ih =>
      have hne := splitAt_ne_nil sep rest
      unfold splitAt
      split
      · rename_i h
        match hs : splitAt sep rest with
        | [] => exact absurd hs hne
        | piece :: pieces => rw [hs] at ih; simp [joinWith, ih, h]
      · match hs : splitAt sep rest with
        | [] => exact absurd hs hne
        | [piece] =>
            rw [hs] at ih
            simp only [joinWith] at ih
            simp [joinWith, ih]
        | piece :: next :: pieces =>
            rw [hs] at ih
            simp only [joinWith] at ih
            simp [joinWith, ih]

theorem splitAt_of_not_mem {sep : Char} {piece : List Char} (h : sep ∉ piece) :
    splitAt sep piece = [piece] := by
  induction piece with
  | nil => rfl
  | cons c piece ih =>
      obtain ⟨hc, hpiece⟩ := not_or.mp (mt List.mem_cons.mpr h)
      simp only [splitAt, if_neg (Ne.symm hc), ih hpiece]

theorem splitAt_append {sep : Char} {piece rest : List Char} (h : sep ∉ piece) :
    splitAt sep (piece ++ sep :: rest) = piece :: splitAt sep rest := by
  induction piece with
  | nil => simp [splitAt]
  | cons c piece ih =>
      obtain ⟨hc, hpiece⟩ := not_or.mp (mt List.mem_cons.mpr h)
      simp only [List.cons_append, splitAt, if_neg (Ne.symm hc), ih hpiece]

/-- Pieces that are joined are found again, if the separator is in none of them. -/
theorem splitAt_joinWith {sep : Char} {pieces : List (List Char)} (hne : pieces ≠ [])
    (h : ∀ piece ∈ pieces, sep ∉ piece) : splitAt sep (joinWith sep pieces) = pieces := by
  induction pieces with
  | nil => exact absurd rfl hne
  | cons piece rest ih =>
      have hpiece := h piece List.mem_cons_self
      cases rest with
      | nil => exact splitAt_of_not_mem hpiece
      | cons next rest =>
          have hrest := ih (List.cons_ne_nil next rest) fun p hp => h p (List.mem_cons_of_mem _ hp)
          show splitAt sep (piece ++ sep :: joinWith sep (next :: rest)) = _
          rw [splitAt_append hpiece, hrest]

/-- The pieces of a string, cut at every dot. -/
def splitDots (s : String) : List String := (splitAt '.' s.toList).map String.ofList

/-- The strings with a dot between neighbours. -/
def joinDots (names : List String) : String :=
  String.ofList (joinWith '.' (names.map String.toList))

theorem splitDots_joinDots {names : List String} (hne : names ≠ [])
    (h : ∀ name ∈ names, '.' ∉ name.toList) : splitDots (joinDots names) = names := by
  rw [splitDots, joinDots, String.toList_ofList, splitAt_joinWith (by simpa using hne)]
  · rw [List.map_map]
    exact List.map_id'' (fun name => String.ofList_toList) names
  · intro piece hpiece
    obtain ⟨name, hname, rfl⟩ := List.mem_map.mp hpiece
    exact h name hname

/-- Takes every occurrence of a character off the front. -/
def dropLeading (c : Char) (s : String) : String := String.ofList (s.toList.dropWhile (· == c))

theorem dropLeading_eq {c : Char} {s : String} (h : s.toList.head? ≠ some c) :
    dropLeading c s = s := by
  have hdrop : s.toList.dropWhile (· == c) = s.toList := by
    cases hs : s.toList with
    | nil => rfl
    | cons x xs =>
        rw [hs] at h
        have hne : (x == c) = false := by simpa using h
        rw [List.dropWhile_cons, hne, if_neg Bool.false_ne_true]
  rw [dropLeading, hdrop, String.ofList_toList]

/-- What follows a beginning, if the text begins so. -/
def after? : List Char → List Char → Option (List Char)
  | [], cs => some cs
  | p :: ps, c :: cs => if p = c then after? ps cs else none
  | _ :: _, [] => none

theorem after?_eq_some_iff {start cs rest : List Char} :
    after? start cs = some rest ↔ cs = start ++ rest := by
  induction start generalizing cs with
  | nil => simp [after?]
  | cons p ps ih =>
      cases cs with
      | nil => simp [after?]
      | cons c cs =>
          by_cases hc : p = c
          · simp [after?, hc, ih]
          · simp [after?, hc, Ne.symm hc]

theorem after?_append (start cs : List Char) : after? start (start ++ cs) = some cs :=
  after?_eq_some_iff.mpr rfl

theorem isSome_after?_iff {start cs : List Char} :
    (after? start cs).isSome = true ↔ start <+: cs := by
  rw [Option.isSome_iff_exists]
  exact exists_congr fun rest => after?_eq_some_iff.trans eq_comm

/-- What follows a beginning, if the string begins so. -/
def stripStart? (start s : String) : Option String :=
  (after? start.toList s.toList).map String.ofList

theorem stripStart?_append (start s : String) : stripStart? start (start ++ s) = some s := by
  simp [stripStart?, after?_append]

def startsWith (start s : String) : Bool := (after? start.toList s.toList).isSome

/-- What stands before an ending, if the string ends so. -/
def stripEnd? (ending s : String) : Option String :=
  (after? ending.toList.reverse s.toList.reverse).map fun cs => String.ofList cs.reverse

/-- A natural number below `bound` in decimal digits, with or without a plus sign before it. -/
def natBelow? (bound : Nat) (s : String) : Option Nat :=
  let digits := match s.toList with
    | '+' :: rest => rest
    | cs => cs
  if digits.isEmpty ∨ ¬ digits.all Char.isDigit then none
  else
    let n := digits.foldl (fun n c => n * 10 + (c.toNat - '0'.toNat)) 0
    if n < bound then some n else none

end Statechart.Text
