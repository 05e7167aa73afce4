import Statechart.Proofs.Population

/-!
# What is kept alive

A session is alive if something outside all actors keeps it, or an actor does that is alive itself
(`System.Kept`). The search that decides it has fuel enough to visit all of them
(`System.isAlive_iff`), so what is alive stays so when more is kept (`System.Kept.mono`).
-/

namespace Statechart

namespace System

/-- Something outside the actors keeps a session, or an actor that is kept. -/
inductive Kept (sys : System) : Session → Prop
  | outside {s : Session} (h : s ∈ sys.roots) : Kept sys s
  | through {s c : Session} {a : Actor} (h : Kept sys s) (ha : sys.actor? s = some a)
      (hc : c ∈ a.keeps) : Kept sys c

variable {sys sys' : System}

/-! ## The search -/

/-- How many visits the actors that have not been found may still lead to. -/
def toVisit (actors : List (Nat × Actor)) (found : NodeSet) : Nat :=
  match actors with
  | [] => 0
  | (n, a) :: rest => (if n ∈ found then 0 else a.keeps.length) + toVisit rest found

theorem toVisit_insert_le (actors : List (Nat × Actor)) (found : NodeSet) (n : Nat) :
    toVisit actors (found.insert n) ≤ toVisit actors found := by
  induction actors with
  | nil => exact Nat.le_refl _
  | cons entry rest ih =>
      obtain ⟨k, a⟩ := entry
      simp only [toVisit, NodeSet.mem_insert]
      by_cases hk : k ∈ found
      · simp only [hk, or_true, if_true]
        omega
      · by_cases hkn : k = n
        · simp only [hkn, true_or, if_true]
          omega
        · simp only [hk, hkn, or_self, if_false]
          omega

/-- To find an actor takes what it keeps from what is still to be visited. -/
theorem toVisit_insert {actors : List (Nat × Actor)} {found : NodeSet} {n : Nat} {a : Actor}
    (ha : SortedMap.find? n actors = some a) (hn : n ∉ found) :
    a.keeps.length + toVisit actors (found.insert n) ≤ toVisit actors found := by
  -- the numbers of actors are unique, but here the first entry of the number is enough
  induction actors with
  | nil => cases ha
  | cons entry rest ih =>
      obtain ⟨k, b⟩ := entry
      rw [SortedMap.find?_cons] at ha
      simp only [toVisit, NodeSet.mem_insert]
      split at ha
      · rename_i hk
        cases ha
        have hle := toVisit_insert_le rest found n
        simp only [hk, hn, true_or, if_true, if_false]
        omega
      · rename_i hk
        have hle := ih ha
        simp only [hk, false_or]
        omega

/-- What an actor keeps, if there is one. -/
def keptBy (sys : System) (s : Session) : List Session :=
  match sys.actor? s with
  | some a => a.keeps
  | none => []

theorem reach_cons (sys : System) (fuel : Nat) (found : NodeSet) (s : Session)
    (rest : List Session) : sys.reach (fuel + 1) found (s :: rest) =
      if s.number ∈ found then sys.reach fuel found rest
      else sys.reach fuel (found.insert s.number) (sys.keptBy s ++ rest) := rfl

theorem toVisit_keptBy {found : NodeSet} {s : Session} (hs : s.number ∉ found) :
    (sys.keptBy s).length + toVisit sys.actors (found.insert s.number) ≤
      toVisit sys.actors found := by
  unfold keptBy
  split
  · rename_i a ha
    exact toVisit_insert ha hs
  · have hle := toVisit_insert_le sys.actors found s.number
    simpa using hle

/-- The search ends in a set that has all it began with and is closed under what actors keep. -/
theorem reach_closed : ∀ {fuel : Nat} {found : NodeSet} {list : List Session},
    list.length + toVisit sys.actors found ≤ fuel →
      (∀ n ∈ found, n ∈ sys.reach fuel found list) ∧
      (∀ s ∈ list, s.number ∈ sys.reach fuel found list) ∧
      ∀ s, s.number ∈ sys.reach fuel found list → s.number ∉ found →
        ∀ c ∈ sys.keptBy s, c.number ∈ sys.reach fuel found list
  | 0, found, list, h => by
      obtain rfl : list = [] := List.length_eq_zero_iff.mp (by omega)
      exact ⟨fun n hn => hn, by simp, fun s hs hno => absurd hs hno⟩
  | fuel + 1, found, [], h => ⟨fun n hn => hn, by simp, fun s hs hno => absurd hs hno⟩
  | fuel + 1, found, s :: rest, h => by
      rw [List.length_cons] at h
      rw [reach_cons]
      split
      · rename_i hs
        obtain ⟨hfound, hlist, hclosed⟩ := @reach_closed fuel found rest (by omega)
        refine ⟨hfound, fun t ht => ?_, hclosed⟩
        rcases List.mem_cons.mp ht with rfl | ht
        · exact hfound _ hs
        · exact hlist t ht
      · rename_i hs
        -- what it keeps is put on the list at the price of one visit
        have hvisits := @toVisit_keptBy sys found s hs
        obtain ⟨hfound, hlist, hclosed⟩ :=
          @reach_closed fuel (found.insert s.number) (sys.keptBy s ++ rest)
            (by rw [List.length_append]; omega)
        refine ⟨fun n hn => hfound n (by simp [hn]), fun t ht => ?_, fun t ht hno c hc => ?_⟩
        · rcases List.mem_cons.mp ht with rfl | ht
          · exact hfound _ (by simp)
          · exact hlist t (List.mem_append_right _ ht)
        · by_cases hts : t.number = s.number
          · have hsame : sys.keptBy t = sys.keptBy s := by rw [keptBy, keptBy, actor?, actor?, hts]
            exact hlist c (List.mem_append_left _ (hsame ▸ hc))
          · exact hclosed t ht (by simp [hts, hno]) c hc

/-- The search finds nothing but what is kept. -/
theorem kept_of_reach : ∀ {fuel : Nat} {found : NodeSet} {list : List Session},
    (∀ s : Session, s.number ∈ found → sys.Kept s) → (∀ s ∈ list, sys.Kept s) →
      ∀ s : Session, s.number ∈ sys.reach fuel found list → sys.Kept s
  | 0, found, list, hfound, _ => hfound
  | fuel + 1, found, [], hfound, _ => hfound
  | fuel + 1, found, s :: rest, hfound, hlist => by
      have hs := hlist s List.mem_cons_self
      have hrest : ∀ t ∈ rest, sys.Kept t := fun t ht => hlist t (List.mem_cons_of_mem _ ht)
      rw [reach_cons]
      split
      · exact kept_of_reach hfound hrest
      · refine kept_of_reach (fun t ht => ?_) fun t ht => ?_
        · rcases (NodeSet.mem_insert ..).mp ht with hts | ht
          · have hsame : t = s := by
              cases t
              cases s
              exact congrArg _ hts
            exact hsame ▸ hs
          · exact hfound t ht
        · rcases List.mem_append.mp ht with ht | ht
          · unfold keptBy at ht
            split at ht
            · rename_i a ha
              exact .through hs ha ht
            · cases ht
          · exact hrest t ht

/-! ## What is alive -/

theorem toVisit_empty (actors : List (Nat × Actor)) (n : Nat) :
    n + toVisit actors .empty = actors.foldl (fun n a => n + a.2.keeps.length) n := by
  induction actors generalizing n with
  | nil => rfl
  | cons entry rest ih =>
      simp only [toVisit, NodeSet.not_mem_empty, if_false, List.foldl_cons, ← ih]
      omega

/-- A session is alive if it is kept. -/
theorem isAlive_iff {s : Session} : sys.isAlive s = true ↔ sys.Kept s := by
  have hfuel : sys.roots.length + toVisit sys.actors .empty ≤ sys.reachFuel := by
    have hvisits := toVisit_empty sys.actors 1
    unfold reachFuel
    omega
  obtain ⟨-, hroots, hclosed⟩ := reach_closed hfuel
  constructor
  · exact fun h => kept_of_reach (fun t ht => absurd ht (NodeSet.not_mem_empty _))
      (fun t ht => .outside ht) s h
  · intro h
    induction h with
    | outside h => exact hroots _ h
    | @through s c a _ ha hc ih =>
        refine hclosed s ih (NodeSet.not_mem_empty _) c ?_
        rw [keptBy, ha]
        exact hc

/-- What is kept stays so when no less is kept from outside, and by the actors. -/
theorem Kept.mono {s : Session} (h : sys.Kept s) (hroots : sys.roots ⊆ sys'.roots)
    (hkeeps : ∀ t a, sys.actor? t = some a → ∃ a', sys'.actor? t = some a' ∧ a.keeps ⊆ a'.keeps) :
    sys'.Kept s := by
  induction h with
  | outside h => exact .outside (hroots h)
  | @through s c a _ ha hc ih =>
      obtain ⟨a', ha', hsub⟩ := hkeeps s a ha
      exact .through ih ha' (hsub hc)

/-- An actor is found by its session if it is registered and kept. -/
theorem lookup?_eq_some {s t : Session} :
    sys.lookup? s = some t ↔ s = t ∧ s.number ∈ sys.registered ∧ sys.Kept s := by
  unfold lookup?
  rw [← isAlive_iff]
  split
  · rename_i h
    obtain ⟨hregistered, halive⟩ := Bool.and_eq_true_iff.mp h
    simpa [halive] using fun _ => hregistered
  · rename_i h
    simp only [reduceCtorEq, false_iff, not_and]
    intro _ hregistered halive
    exact h (Bool.and_eq_true_iff.mpr ⟨hregistered, halive⟩)

end System

end Statechart
