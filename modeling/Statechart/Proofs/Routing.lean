import Mathlib.Data.List.Infix
import Statechart.Machine
import Statechart.Proofs.Arena
import Statechart.Proofs.Selection

/-!
# Routing events

Which transitions of a state are tried for an event is decided by its name alone. Those that listen
for exactly this name come alone; without them come those that stand for several names, in the order
of their rank. Rank is the length of a stem, and it stands for inclusion: of two families with a
name in common, the one with the longer stem is contained in the other one
(`Descriptor.narrower_of_rank`). `events_routed` puts this together, and tells what a strict machine
may refuse.
-/

namespace Statechart

/-! ## Beginnings of texts -/

namespace Text

/-- What a text begins with takes no more room than the text, and less if it is not all of it. -/
theorem eq_or_size_lt {s t : String} (h : s.toList <+: t.toList) :
    s = t ∨ s.utf8ByteSize < t.utf8ByteSize := by
  obtain ⟨rest, hrest⟩ := h
  have ht : t = s ++ String.ofList rest := by
    apply String.ext
    rw [String.toList_append, String.toList_ofList, hrest]
  by_cases hzero : (String.ofList rest).utf8ByteSize = 0
  · left
    rw [ht, String.utf8ByteSize_eq_zero_iff.mp hzero, String.append_empty]
  · right
    rw [ht, String.utf8ByteSize_append]
    omega

end Text

/-! ## Families of names -/

namespace Descriptor

/-- A family holds its stem and every name that continues it after a dot. -/
theorem matchesName_family {stem name : String} : (family stem).matchesName name = true ↔
    name = stem ∨ stem.toList ++ ['.'] <+: name.toList := by
  simp only [matchesName, Text.startsWith, Bool.or_eq_true, beq_iff_eq, Text.isSome_after?_iff,
    String.toList_append]
  rfl

theorem prefix_of_family {stem name : String} (h : (family stem).matchesName name = true) :
    stem.toList <+: name.toList := by
  rcases matchesName_family.mp h with rfl | h
  · exact List.prefix_refl _
  · exact (List.prefix_append _ _).trans h

/-- One descriptor stands for strictly fewer names than another one. -/
def Narrower (a b : Descriptor) : Prop :=
  (∀ name, a.matchesName name = true → b.matchesName name = true) ∧
    ∃ name, b.matchesName name = true ∧ a.matchesName name = false

/-- A family is contained in that of a stem which its own stem continues after a dot. -/
theorem narrower_of_extends {stem stem' : String} (h : stem'.toList ++ ['.'] <+: stem.toList) :
    (family stem).Narrower (family stem') := by
  constructor
  · intro name hname
    rw [matchesName_family]
    exact .inr (h.trans (prefix_of_family hname))
  · refine ⟨stem', matchesName_family.mpr (.inl rfl), ?_⟩
    rw [Bool.eq_false_iff]
    intro hname
    have hlen := h.length_le
    have hlen' := (prefix_of_family hname).length_le
    rw [List.length_append, List.length_singleton] at hlen
    omega

theorem narrower_wildcard (stem : String) : (family stem).Narrower wildcard := by
  refine ⟨fun _ _ => rfl, stem ++ "x", rfl, ?_⟩
  rw [Bool.eq_false_iff]
  intro hname
  rcases matchesName_family.mp hname with heq | hprefix
  · have hlen := congrArg (fun s : String => s.toList.length) heq
    simp at hlen
  · rw [String.toList_append, List.prefix_append_right_inj] at hprefix
    exact absurd hprefix (by decide)

/-- Of two families with a name in common, the longer stem continues the shorter one. -/
theorem extends_of_size_lt {stem stem' name : String} (h : (family stem).matchesName name = true)
    (h' : (family stem').matchesName name = true)
    (hlt : stem'.utf8ByteSize < stem.utf8ByteSize) : stem'.toList ++ ['.'] <+: stem.toList := by
  have hnot : ¬ stem.toList <+: stem'.toList := by
    intro hprefix
    rcases Text.eq_or_size_lt hprefix with rfl | hsize
    · omega
    · omega
  rcases matchesName_family.mp h' with rfl | h'
  · exact absurd (prefix_of_family h) hnot
  · rcases List.prefix_or_prefix_of_prefix (prefix_of_family h) h' with hprefix | hprefix
    · rcases List.prefix_concat_iff.mp hprefix with heq | hprefix
      · rw [heq]
      · exact absurd hprefix hnot
    · exact hprefix

/-- Two families with a name in common and stems of one size are the same. -/
theorem stem_eq_of_size_eq {stem stem' name : String} (h : (family stem).matchesName name = true)
    (h' : (family stem').matchesName name = true)
    (heq : stem'.utf8ByteSize = stem.utf8ByteSize) : stem = stem' := by
  rcases List.prefix_or_prefix_of_prefix (prefix_of_family h) (prefix_of_family h') with hp | hp
  · rcases Text.eq_or_size_lt hp with hsame | hlt
    · exact hsame
    · omega
  · rcases Text.eq_or_size_lt hp with hsame | hlt
    · exact hsame.symm
    · omega

/-- Of two families with a name in common, one is contained in the other. -/
theorem comparable {stem stem' name : String} (h : (family stem).matchesName name = true)
    (h' : (family stem').matchesName name = true) : family stem = family stem' ∨
      (family stem).Narrower (family stem') ∨ (family stem').Narrower (family stem) := by
  rcases Nat.lt_trichotomy stem.utf8ByteSize stem'.utf8ByteSize with hlt | heq | hlt
  · right
    right
    exact narrower_of_extends (extends_of_size_lt h' h hlt)
  · left
    rw [stem_eq_of_size_eq h h' heq.symm]
  · right
    left
    exact narrower_of_extends (extends_of_size_lt h h' hlt)

variable {a b : Descriptor} {name : String}

/-- Of two descriptors that stand for several names, and have one in common, the one of higher rank
stands for fewer names. -/
theorem narrower_of_rank (ha : a.isOpen = true) (hb : b.isOpen = true)
    (hname : a.matchesName name = true) (hname' : b.matchesName name = true)
    (hlt : b.specificity < a.specificity) : a.Narrower b := by
  cases a with
  | exact _ => cases ha
  | eventless => cases ha
  | wildcard =>
      cases b <;> simp [specificity, isOpen] at hlt hb
  | family stem =>
      cases b with
      | exact _ => cases hb
      | eventless => cases hb
      | wildcard => exact narrower_wildcard stem
      | family stem' =>
          simp only [specificity] at hlt
          exact narrower_of_extends (extends_of_size_lt hname hname' (by omega))

/-- Equal ranks mean the same names. -/
theorem eq_of_rank (ha : a.isOpen = true) (hb : b.isOpen = true)
    (hname : a.matchesName name = true) (hname' : b.matchesName name = true)
    (heq : b.specificity = a.specificity) : a = b := by
  cases a with
  | exact _ => cases ha
  | eventless => cases ha
  | wildcard =>
      cases b <;> simp [specificity, isOpen] at heq hb ⊢
  | family stem =>
      cases b with
      | exact _ => cases hb
      | eventless => cases hb
      | wildcard => simp [specificity] at heq
      | family stem' =>
          simp only [specificity] at heq
          rw [stem_eq_of_size_eq hname hname' (by omega)]

end Descriptor

/-! ## Candidates -/

/-- Sorting is stable: elements that may stand either way keep the order that they had. -/
theorem pairwise_mergeSort {α : Type} {le : α → α → Bool} {R : α → α → Prop}
    (htrans : ∀ a b c, le a b = true → le b c = true → le a c = true)
    (htotal : ∀ a b, (le a b || le b a) = true) {l : List α} (h : l.Pairwise R) :
    (l.mergeSort le).Pairwise fun a b => le a b = true ∧ (le b a = true → R a b) := by
  induction l with
  | nil => simp
  | cons a rest ih =>
      obtain ⟨hhead, hrest⟩ := List.pairwise_cons.mp h
      -- the first element finds its place behind those that have to stand before it
      obtain ⟨before, after, hsort, hsplit, hbefore⟩ := List.mergeSort_cons htrans htotal a rest
      have hall := List.pairwise_mergeSort htrans htotal (a :: rest)
      have hmem : ∀ c ∈ after, c ∈ rest := by
        intro c hc
        have hsorted : c ∈ rest.mergeSort le := hsplit ▸ List.mem_append_right _ hc
        exact List.mem_mergeSort.mp hsorted
      rw [hsort] at hall ⊢
      have ih := ih hrest
      rw [hsplit] at ih
      obtain ⟨hb, ha, hacross⟩ := List.pairwise_append.mp ih
      obtain ⟨-, hall, hcross⟩ := List.pairwise_append.mp hall
      apply List.pairwise_append.mpr
      refine ⟨hb, List.pairwise_cons.mpr ⟨?_, ha⟩, ?_⟩
      · intro c hc
        exact ⟨(List.pairwise_cons.mp hall).1 c hc, fun _ => hhead c (hmem c hc)⟩
      · intro b hb c hc
        rcases List.mem_cons.mp hc with rfl | hc
        · refine ⟨hcross b hb _ List.mem_cons_self, fun hle => ?_⟩
          have hnot := hbefore b hb
          rw [hle] at hnot
          cases hnot
        · exact hacross b hb c hc

namespace Definition

variable {L : Type} {d : Definition L} {i t : Nat} {name : String}

theorem candidates_of_exact (h : d.exactTransitions i name ≠ []) :
    d.candidates i name = d.exactTransitions i name := by
  unfold candidates
  split
  · rename_i hnil
    exact absurd hnil h
  · rfl

theorem candidates_of_open (h : d.exactTransitions i name = []) : d.candidates i name =
    (d.openTransitions i).filter fun t => (d.transition t).event.matchesName name := by
  rw [candidates, h]

theorem exactTransitions_ne_nil : d.exactTransitions i name ≠ [] ↔
    ∃ t ∈ (d.node i).transitions, (d.transition t).event = .exact name := by
  rw [← List.length_pos_iff, List.length_pos_iff_exists_mem]
  exact exists_congr fun t => mem_exactTransitions

/-- Open transitions stand by their ranks, and those of one rank as they are numbered. -/
theorem pairwise_openTransitions (h : (d.node i).transitions.Pairwise (· < ·)) :
    (d.openTransitions i).Pairwise fun t u =>
      (d.transition u).event.specificity ≤ (d.transition t).event.specificity ∧
        ((d.transition t).event.specificity ≤ (d.transition u).event.specificity → t < u) := by
  let le := fun a b =>
    decide ((d.transition b).event.specificity ≤ (d.transition a).event.specificity)
  have htrans : ∀ a b c, le a b = true → le b c = true → le a c = true := by
    intro a b c hab hbc
    simp only [le, decide_eq_true_eq] at hab hbc ⊢
    omega
  have htotal : ∀ a b, (le a b || le b a) = true := by
    intro a b
    simp only [le, Bool.or_eq_true, decide_eq_true_eq]
    omega
  have hsort := pairwise_mergeSort htrans htotal (h.filter fun t => (d.transition t).event.isOpen)
  unfold openTransitions
  simpa only [le, decide_eq_true_eq] using hsort

/-- The open candidates stand from the narrowest descriptor to the widest. -/
theorem pairwise_candidates_of_open (h : (d.node i).transitions.Pairwise (· < ·))
    (hexact : d.exactTransitions i name = []) :
    (d.candidates i name).Pairwise fun t u =>
      (d.transition t).event.Narrower (d.transition u).event ∨
        (d.transition t).event = (d.transition u).event ∧ t < u := by
  rw [candidates_of_open hexact]
  apply ((pairwise_openTransitions h).filter _).imp_of_mem
  intro t u ht hu hrank
  obtain ⟨ht, hname⟩ := List.mem_filter.mp ht
  obtain ⟨hu, hname'⟩ := List.mem_filter.mp hu
  have hopen := (mem_openTransitions.mp ht).2
  have hopen' := (mem_openTransitions.mp hu).2
  obtain ⟨hle, hstable⟩ := hrank
  rcases Nat.lt_or_eq_of_le hle with hlt | heq
  · exact .inl (Descriptor.narrower_of_rank hopen hopen' hname hname' hlt)
  · exact .inr ⟨Descriptor.eq_of_rank hopen hopen' hname hname' heq, hstable heq.ge⟩

theorem mem_candidates_of_open (hexact : d.exactTransitions i name = []) :
    t ∈ d.candidates i name ↔ t ∈ (d.node i).transitions ∧
      (d.transition t).event.isOpen = true ∧ (d.transition t).event.matchesName name = true := by
  rw [candidates_of_open hexact, List.mem_filter, mem_openTransitions, and_assoc]

/-- A state has candidates for an event exactly if one of its transitions listens for the name. -/
theorem candidates_ne_nil : d.candidates i name ≠ [] ↔
    ∃ t ∈ (d.node i).transitions, (d.transition t).event.matchesName name = true := by
  by_cases hexact : d.exactTransitions i name = []
  · rw [← List.length_pos_iff, List.length_pos_iff_exists_mem]
    refine exists_congr fun t => ?_
    rw [mem_candidates_of_open hexact]
    refine and_congr_right fun ht => and_iff_right_of_imp fun hname => ?_
    -- nothing of this state is an exact match
    have hno : (d.transition t).event ≠ .exact name := fun heq =>
      exactTransitions_ne_nil.mpr ⟨t, ht, heq⟩ hexact
    cases hevent : (d.transition t).event with
    | exact n =>
        rw [hevent] at hname hno
        exact absurd (congrArg Descriptor.exact (by simpa [Descriptor.matchesName] using hname)) hno
    | family stem => rfl
    | wildcard => rfl
    | eventless =>
        rw [hevent] at hname
        cases hname
  · rw [candidates_of_exact hexact]
    refine iff_of_true hexact ?_
    obtain ⟨t, ht, hevent⟩ := exactTransitions_ne_nil.mp hexact
    exact ⟨t, ht, by simp [hevent, Descriptor.matchesName]⟩

theorem acceptsEvent_eq :
    d.acceptsEvent name = d.transitions.toList.any fun t => t.event.matchesName name := by
  unfold acceptsEvent
  congr
  funext t
  cases t.event <;> rfl

/-- A name is accepted exactly if some transition listens for it. -/
theorem acceptsEvent_iff : d.acceptsEvent name = true ↔
    ∃ t < d.transitions.size, (d.transition t).event.matchesName name = true := by
  have htransition : ∀ {t} (ht : t < d.transitions.size), d.transitions[t] = d.transition t :=
    fun ht => by simp [transition, ht]
  rw [acceptsEvent_eq, List.any_eq_true]
  constructor
  · rintro ⟨x, hx, hname⟩
    obtain ⟨t, ht, rfl⟩ := Array.mem_iff_getElem.mp (Array.mem_toList_iff.mp hx)
    rw [htransition ht] at hname
    exact ⟨t, ht, hname⟩
  · rintro ⟨t, ht, hname⟩
    rw [← htransition ht] at hname
    exact ⟨_, Array.getElem_mem_toList ht, hname⟩

/-! ## Refused events -/

variable {s : Situation} {event : Event} {candidates : Nat → List Nat}

/-- Where no state has candidates, nothing is selected. -/
theorem selectFrom_of_no_candidates (h : ∀ node, candidates node = []) :
    d.selectFrom s event candidates = .ok [] := by
  have hpath : ∀ path, d.pickAlong s event candidates path = .ok none := by
    intro path
    induction path with
    | nil => rfl
    | cons node rest ih => simp only [pickAlong, h, firstEnabled, ih]
  have hpicks : ∀ leaves, d.picks s event candidates [] leaves = .ok [] := by
    intro leaves
    induction leaves with
    | nil => rfl
    | cons leaf rest ih => simp only [picks, pick, hpath, ih]
  simp only [selectFrom, hpicks]
  rfl

/-- What is tried of a state for an event: the transitions that listen for its name, in the order of
their declaration, or if there are none all that listen for several names with this one among them,
those for fewer names before those for more. -/
structure Routes (d : Definition L) (i : Nat) (name : String) (ts : List Nat) : Prop where
  named : (∃ t < d.transitions.size,
      (d.transition t).source = i ∧ (d.transition t).event = .exact name) →
    ts.Pairwise (· < ·) ∧ ∀ t, t ∈ ts ↔ t < d.transitions.size ∧
      (d.transition t).source = i ∧ (d.transition t).event = .exact name
  several : (∀ t < d.transitions.size,
      (d.transition t).source = i → (d.transition t).event ≠ .exact name) →
    ts.Pairwise (fun t u => (d.transition t).event.Narrower (d.transition u).event ∨
      (d.transition t).event = (d.transition u).event ∧ t < u) ∧
    ∀ t, t ∈ ts ↔ t < d.transitions.size ∧ (d.transition t).source = i ∧
      (d.transition t).event.isOpen = true ∧ (d.transition t).event.matchesName name = true

namespace WellFormed

variable (wf : d.WellFormed)
include wf

theorem routes_candidates (hi : i < d.nodes.size)
    (h : (d.node i).transitions.Pairwise (· < ·)) : d.Routes i name (d.candidates i name) where
  named := by
    rintro ⟨t, ht, hsource, hevent⟩
    have hexact := exactTransitions_ne_nil.mpr
      ⟨t, (wf.mem_transitions i hi t).mpr ⟨ht, hsource⟩, hevent⟩
    rw [candidates_of_exact hexact]
    refine ⟨h.filter _, fun t => ?_⟩
    rw [mem_exactTransitions, wf.mem_transitions i hi, and_assoc]
  several := by
    intro hno
    have hexact : d.exactTransitions i name = [] := by
      by_contra hne
      obtain ⟨t, ht, hevent⟩ := exactTransitions_ne_nil.mp hne
      obtain ⟨hlt, hsource⟩ := (wf.mem_transitions i hi t).mp ht
      exact hno t hlt hsource hevent
    refine ⟨pairwise_candidates_of_open h hexact, fun t => ?_⟩
    rw [mem_candidates_of_open hexact, wf.mem_transitions i hi, and_assoc]

/-- A name is accepted exactly if some state has something to try for it. -/
theorem acceptsEvent_iff_candidates : d.acceptsEvent name = true ↔
    ∃ i < d.nodes.size, d.candidates i name ≠ [] := by
  simp only [acceptsEvent_iff, candidates_ne_nil]
  constructor
  · rintro ⟨t, ht, hname⟩
    have hsource := wf.source_lt t ht
    exact ⟨_, hsource, t, (wf.mem_transitions _ hsource t).mpr ⟨ht, rfl⟩, hname⟩
  · rintro ⟨i, hi, t, ht, hname⟩
    exact ⟨t, ((wf.mem_transitions i hi t).mp ht).1, hname⟩

/-- Where a name is not accepted, no state has anything to try. -/
theorem candidates_eq_nil (h : d.acceptsEvent name = false) (i : Nat) :
    d.candidates i name = [] := by
  by_contra hne
  by_cases hi : i < d.nodes.size
  · rw [wf.acceptsEvent_iff_candidates.mpr ⟨i, hi, hne⟩] at h
    cases h
  · -- there is no such state
    obtain ⟨t, ht, -⟩ := candidates_ne_nil.mp hne
    rw [node_of_size_le (Nat.le_of_not_lt hi)] at ht
    cases ht

end WellFormed

end Definition

namespace Machine

theorem acceptsEvent_of_refused {m : Machine} {event : Event} {e : ActorError}
    (h : m.accepts event = .error e) : m.definition.acceptsEvent event.name = false := by
  unfold accepts at h
  split at h
  · rename_i hcond
    simp only [Bool.and_eq_true, Bool.not_eq_true'] at hcond
    exact hcond.2
  · cases h

/-- **Routing.** What is tried of a state for an event are the transitions that its name calls for,
in their order; two families with a name in common are the same, or one is contained in the other. A
name is accepted exactly if there is a state with something to try, so a strict machine misses
nothing when it refuses an event. -/
theorem events_routed {m : Machine} (h : m.definition.Accepted) :
    (∀ i < m.definition.nodes.size, ∀ name,
      m.definition.Routes i name (m.definition.candidates i name)) ∧
    (∀ stem stem' name, (Descriptor.family stem).matchesName name = true →
      (Descriptor.family stem').matchesName name = true →
        Descriptor.family stem = .family stem' ∨
        (Descriptor.family stem).Narrower (.family stem') ∨
        (Descriptor.family stem').Narrower (.family stem)) ∧
    (∀ name, m.definition.acceptsEvent name = true ↔
      ∃ i < m.definition.nodes.size, m.definition.candidates i name ≠ []) ∧
    ∀ event e, m.accepts event = .error e → ∀ s, m.definition.select s event = .ok [] := by
  obtain ⟨machine, os, linked, ts, hassembled⟩ := h.assembled
  have wf := hassembled.wellFormed
  refine ⟨?_, ?_, ?_, ?_⟩
  · intro i hi name
    exact wf.routes_candidates hi (hassembled.sorted_transitions (hassembled.size_eq ▸ hi))
  · intro stem stem' name hname hname'
    exact Descriptor.comparable hname hname'
  · intro name
    exact wf.acceptsEvent_iff_candidates
  · intro event e hrefused s
    have hunknown := acceptsEvent_of_refused hrefused
    apply Definition.selectFrom_of_no_candidates
    intro i
    exact wf.candidates_eq_nil hunknown i

/-- A telephone line that takes calls, urgent ones first, and nothing else. -/
def lineJson : Json :=
  let answer : Json := .obj [("target", .str "busy")]
  let idle : Json := .obj [("on", .obj [("call.*", .arr [answer, answer]),
    ("call.urgent.*", answer), ("call.test", .obj [])])]
  .obj [("strict", .bool true), ("initial", .str "idle"), ("states", .obj
    [("idle", idle), ("busy", .obj [])])]

/-- The machine of the line, with nothing supplied. -/
def line : Machine where
  definition := (Definition.ofJson lineJson).toOption.getD default
  implementations := default
  spawn := default

/-- All transitions for calls are tried for an urgent one, and mail is nothing for the line. -/
theorem line_answers :
    (∀ t, t ∈ line.definition.candidates 1 "call.urgent.now" ↔ t ∈ [0, 1, 2]) ∧
    (line.definition.candidates 1 "call.urgent.now").Pairwise (fun t u =>
      (line.definition.transition t).event.Narrower (line.definition.transition u).event ∨
        (line.definition.transition t).event = (line.definition.transition u).event ∧ t < u) ∧
    (∀ t, t ∈ line.definition.candidates 1 "call.test" ↔ t = 3) ∧
    ∀ s, line.definition.select s (.named "mail") = .ok [] := by
  have hjson : (Definition.ofJson (L := Logic) lineJson).isOk = true := by decide +kernel
  have haccepted : line.definition.Accepted := Definition.accepted_of_isOk hjson
  have hsize : line.definition.transitions.size = 4 := by decide +kernel
  have hidle : 1 < line.definition.nodes.size := by decide +kernel
  obtain ⟨hroutes, -, -, hrefused⟩ := events_routed haccepted
  obtain ⟨hsorted, hmem⟩ := (hroutes 1 hidle "call.urgent.now").several (by decide +kernel)
  obtain ⟨-, hmem'⟩ := (hroutes 1 hidle "call.test").named (by decide +kernel)
  rw [hsize] at hmem hmem'
  refine ⟨fun t => (hmem t).trans ?_, hsorted, fun t => (hmem' t).trans ?_, ?_⟩
  · by_cases ht : t < 4
    · revert t
      decide +kernel
    · exact iff_of_false (fun h => ht h.1) (by simp; omega)
  · by_cases ht : t < 4
    · revert t
      decide +kernel
    · exact iff_of_false (fun h => ht h.1) (by omega)
  · exact hrefused (.named "mail") (.strictModeViolation "machine" "mail") (by rfl)

end Machine

end Statechart
