import Statechart.Proofs.Arena
import Statechart.Proofs.Delayed
import Statechart.Proofs.Rebuilding
import Statechart.Proofs.Resumption

/-!
# What an id names

A state is named by its id in two ways. A target is resolved when a definition is built, and takes
one `#` off the text. Guards, questions about what is active and stored histories look ids up later,
and take every `#` off.

A target that is `#` and an id leads to the state with that id, from wherever it is written
(`resolveTarget_id`). A text that finds a state names it in everything that is looked up later
(`Machine.names_of_found`). The two ways agree on all ids that do not begin with `#`, and a state
with another id is found by no text at all (`Machine.id_names_state`).
-/

namespace Statechart

/-! ## Signs before a text -/

namespace Text

theorem head_dropLeading (c : Char) (s : String) : (dropLeading c s).toList.head? ≠ some c := by
  intro h
  rw [dropLeading, String.toList_ofList] at h
  have hnot := List.head?_dropWhile_not (· == c) s.toList
  rw [h] at hnot
  simp at hnot

theorem dropLeading_sign (s : String) : dropLeading '#' ("#" ++ s) = dropLeading '#' s := by
  simp [dropLeading]

end Text

namespace Definition

variable {L : Type} {d : Definition L}

theorem find?_sign (id : String) : d.find? ("#" ++ id) = d.find? id := by
  rw [find?, find?, Text.dropLeading_sign]

theorem find?_dropLeading (id : String) : d.find? (Text.dropLeading '#' id) = d.find? id := by
  rw [find?, find?, Text.dropLeading_eq (Text.head_dropLeading '#' id)]

/-- What a text finds has an id that does not begin with `#`. -/
theorem WellFormed.plain_of_find? {d : Definition Logic} (wf : d.WellFormed) {text : String} {i : Nat}
    (h : d.find? text = some i) : (d.node i).id.toList.head? ≠ some '#' := by
  rw [(wf.find?_eq_some_iff.mp h).2]
  exact Text.head_dropLeading '#' text

/-! ## Targets -/

variable (d) in
/-- The states as they are laid out, before they are linked; targets are resolved among them. -/
def drafts : Array (StateNode L) := (d.outlines.map (Outline.toNode d.id)).toArray

/-- The draft of a state has its id, and no other draft has. -/
theorem findId?_drafts {raw : MachineConfig} (h : build raw = .ok d) {i : Nat}
    (hi : i < d.nodes.size) : findId? d.drafts (d.node i).id = some i := by
  obtain ⟨hnodup, hlinked⟩ := outlines_of_build h
  have hout : i < d.outlines.length := by
    rw [hlinked.length_eq]
    exact hi
  have hid : (d.node i).id = d.outlines[i].id d.id := by
    have hnode := (hlinked.get hout hi).id
    rw [node, Array.getElem?_eq_getElem hi]
    exact hnode
  have hdraft : ∀ j (hj : j < d.drafts.toList.length), ∃ hj' : j < d.outlines.length,
      (d.drafts.toList[j]).id = d.outlines[j].id d.id := by
    intro j hj
    have hj' : j < d.outlines.length := by simpa [drafts] using hj
    exact ⟨hj', by simp [drafts, Outline.toNode]⟩
  rw [findId?, List.findIdx?_eq_some_iff_getElem]
  have hi' : i < d.drafts.toList.length := by simpa [drafts] using hout
  refine ⟨hi', ?_, fun j hji => ?_⟩
  · rw [(hdraft i hi').2, hid]
    exact beq_self_eq_true _
  · -- No two outlines share an id, so no state before this one is found.
    have hj := Nat.lt_trans hji hi'
    obtain ⟨hj', heq⟩ := hdraft j hj
    rw [heq, hid]
    intro hsame
    have hj'' : j < (d.outlines.map (Outline.id d.id)).length := by simpa using hj'
    have hi'' : i < (d.outlines.map (Outline.id d.id)).length := by simpa using hout
    have := (@List.Nodup.getElem_inj_iff _ _ hnodup j hj'' i hi'').mp (by simpa using hsame)
    omega

/-- A target that is `#` and an id leads to the state with that id, wherever it is written. -/
theorem resolveTarget_id (h : d.Accepted) {i : Nat} (hi : i < d.nodes.size) (source : Nat) :
    resolveTarget d.drafts source ("#" ++ (d.node i).id) = .ok i := by
  obtain ⟨j, hj⟩ := h.exists_json
  obtain ⟨raw, -, hbuild⟩ := exists_build hj
  unfold resolveTarget
  simp only [Text.stripStart?_append, resolveId?, findId?_drafts hbuild hi]

end Definition

/-! ## Looking up later -/

namespace Machine

variable {m : Machine}

theorem storedState_eq_ok {what text : String} {i : Nat} :
    m.storedState what text = .ok i ↔ m.definition.find? text = some i := by
  unfold storedState
  cases m.definition.find? text <;> simp

theorem storedStates_eq_ok : ∀ {texts : List String} {xs : List Nat},
    m.storedStates texts = .ok xs ↔ texts.map m.definition.find? = xs.map some
  | [], xs => by
      rw [storedStates, Except.ok.injEq]
      exact ⟨fun h => by rw [← h]; rfl, fun h => by simpa using h.symm⟩
  | text :: rest, xs => by
      simp only [storedStates, Except.bind_eq_ok, storedState_eq_ok, storedStates_eq_ok,
        List.map_cons, Except.ok.injEq]
      constructor
      · rintro ⟨i, hi, others, hothers, rfl⟩
        rw [hi, hothers, List.map_cons]
      · intro h
        cases xs with
        | nil => cases h
        | cons i others =>
            obtain ⟨hi, hothers⟩ := List.cons.inj h
            exact ⟨i, hi, others, hothers, rfl⟩

/-- A stored history is read if every id in it is found. -/
theorem storedHistory_isOk : ∀ {entries : List (String × List String)} {done : HistoryValue},
    (∀ e ∈ entries, ∀ text ∈ e.1 :: e.2, (m.definition.find? text).isSome = true) →
      ∃ history, m.storedHistory done entries = .ok history
  | [], done, _ => ⟨done, rfl⟩
  | (text, texts) :: rest, done, h => by
      have hall := h _ List.mem_cons_self
      obtain ⟨i, hi⟩ := Option.isSome_iff_exists.mp (hall text List.mem_cons_self)
      obtain ⟨xs, hxs⟩ : ∃ xs : List Nat, texts.map m.definition.find? = xs.map some := by
        refine ⟨texts.map fun t => (m.definition.find? t).getD 0, ?_⟩
        rw [List.map_map]
        refine List.map_congr_left fun t ht => ?_
        obtain ⟨j, hj⟩ := Option.isSome_iff_exists.mp (hall t (List.mem_cons_of_mem _ ht))
        simp [hj]
      obtain ⟨history, hhistory⟩ : ∃ history,
          m.storedHistory (SortedMap.insert i xs done) rest = .ok history :=
        storedHistory_isOk fun e he => h e (List.mem_cons_of_mem _ he)
      refine ⟨history, ?_⟩
      rw [storedHistory]
      exact Except.bind_eq_ok.mpr ⟨i, storedState_eq_ok.mpr hi,
        Except.bind_eq_ok.mpr ⟨xs, storedStates_eq_ok.mpr hxs, hhistory⟩⟩

/-- Entries of other states leave alone what is recorded for a state. -/
theorem find?_storedHistory_of_ne {i : Nat} :
    ∀ {entries : List (String × List String)} {done history : HistoryValue},
      m.storedHistory done entries = .ok history →
      (∀ e ∈ entries, m.definition.find? e.1 ≠ some i) →
        SortedMap.find? i history = SortedMap.find? i done
  | [], _, _, h, _ => by
      cases h
      rfl
  | (text, texts) :: rest, done, history, h, hother => by
      simp only [storedHistory, Except.bind_eq_ok, storedState_eq_ok] at h
      obtain ⟨j, hj, xs, -, hrest⟩ := h
      have hne : i ≠ j := by
        rintro rfl
        exact hother _ List.mem_cons_self hj
      rw [find?_storedHistory_of_ne hrest fun e he => hother e (List.mem_cons_of_mem _ he),
        SortedMap.find?_insert, if_neg (Ne.symm hne)]

/-- What is recorded for a state is what its last entry says. -/
theorem find?_storedHistory {i : Nat} {text : String} {texts : List String}
    {after : List (String × List String)} (htext : m.definition.find? text = some i)
    (hafter : ∀ e ∈ after, m.definition.find? e.1 ≠ some i) :
    ∀ {before : List (String × List String)} {done history : HistoryValue},
      m.storedHistory done (before ++ (text, texts) :: after) = .ok history →
        ∃ xs, texts.map m.definition.find? = xs.map some ∧ SortedMap.find? i history = some xs
  | [], done, history, h => by
      simp only [List.nil_append, storedHistory, Except.bind_eq_ok, storedState_eq_ok,
        storedStates_eq_ok] at h
      obtain ⟨j, hj, xs, hxs, hrest⟩ := h
      rw [htext] at hj
      cases hj
      refine ⟨xs, hxs, ?_⟩
      rw [find?_storedHistory_of_ne hrest hafter, SortedMap.find?_insert, if_pos rfl]
  | (text', texts') :: before, done, history, h => by
      simp only [List.cons_append, storedHistory, Except.bind_eq_ok] at h
      obtain ⟨_, _, _, _, hrest⟩ := h
      exact find?_storedHistory htext hafter hrest

/-- A text names a state in everything that is looked up once a definition is built. -/
structure Names (m : Machine) (text : String) (i : Nat) : Prop where
  found : m.definition.find? text = some i
  active : ∀ s : MachineSnapshot, s.definition = m.definition →
    s.isActive text = s.config.contains i
  guarded : ∀ (s : Situation) (event : Event),
    m.definition.passes s event (some (.stateIn text)) = .ok (s.config.contains i)
  /-- What is stored under the text is brought back as what the state has recorded. -/
  restored : ∀ {stored : PersistedSnapshot} {value : StateValue} {config : Configuration}
    {before after : List (String × List String)} {texts : List String},
    stored.value = some value → m.definition.ofValue value = .ok config →
    (∀ e ∈ stored.history, ∀ t ∈ e.1 :: e.2, (m.definition.find? t).isSome = true) →
    stored.history = before ++ (text, texts) :: after →
    (∀ e ∈ after, m.definition.find? e.1 ≠ some i) →
      ∃ xs, texts.map m.definition.find? = xs.map some ∧
        (∃ own, m.restoreOwn stored = .ok own ∧ SortedMap.find? i own.history = some xs) ∧
        ∀ scope scope' s, m.restore scope stored = (scope', .ok s) →
          SortedMap.find? i s.history = some xs

/-- Bringing back the children leaves the history as it is. -/
theorem history_of_restore {scope scope' : Scope} {stored : PersistedSnapshot} {s : MachineSnapshot}
    (h : m.restore scope stored = (scope', .ok s)) :
    ∃ own, m.restoreOwn stored = .ok own ∧ s.history = own.history := by
  unfold restore at h
  dsimp only at h
  split at h
  · cases h
  · rename_i own hown
    split at h
    · cases h
    · cases h
      exact ⟨own, hown, rfl⟩

theorem names_of_found {text : String} {i : Nat} (h : m.definition.find? text = some i) :
    m.Names text i where
  found := h
  active s hs := by rw [MachineSnapshot.isActive, Definition.isActive, hs, h]
  guarded s event := by
    have hplain : m.definition.find? (Text.dropLeading '#' text) = some i := by
      rw [Definition.find?_dropLeading, h]
    simp only [Definition.passes, Guard.evalOption, Guard.eval, Definition.isActive, hplain]
  restored := by
    intro stored value config before after texts hvalue hconfig hknown hhistory hafter
    obtain ⟨history, hread⟩ : ∃ history, m.storedHistory [] stored.history = .ok history :=
      storedHistory_isOk hknown
    have hentry := hread
    rw [hhistory] at hentry
    obtain ⟨xs, hxs, hfind⟩ := find?_storedHistory h hafter hentry
    have hown : m.restoreOwn stored = .ok { MachineSnapshot.start m.definition stored.context with
        config, history, status := stored.status, output := stored.output
        error := stored.error } := by
      unfold restoreOwn
      rw [hvalue]
      exact Except.bind_eq_ok.mpr ⟨value, rfl, Except.bind_eq_ok.mpr ⟨config, hconfig,
        Except.bind_eq_ok.mpr ⟨history, hread, rfl⟩⟩⟩
    refine ⟨xs, hxs, ⟨_, hown, hfind⟩, fun scope scope' s hs => ?_⟩
    obtain ⟨own, hown', hsame⟩ := history_of_restore hs
    rw [hown] at hown'
    cases hown'
    rw [hsame]
    exact hfind

/-- An id means the same state in targets and wherever else it is looked up, with and without a `#`
before it, unless it begins with `#` itself. Then targets alone lead to the state, and no text finds
it. -/
theorem id_names_state (h : m.definition.Accepted) {i : Nat} (hi : i < m.definition.nodes.size) :
    (∀ source, Definition.resolveTarget m.definition.drafts source
      ("#" ++ (m.definition.node i).id) = .ok i) ∧
    ((m.definition.node i).id.toList.head? ≠ some '#' →
      m.Names (m.definition.node i).id i ∧ m.Names ("#" ++ (m.definition.node i).id) i) ∧
    ((m.definition.node i).id.toList.head? = some '#' →
      ∀ text, m.definition.find? text ≠ some i) := by
  have wf := h.wellFormed
  refine ⟨Definition.resolveTarget_id h hi, fun hplain => ?_, fun hsign text hfound => ?_⟩
  · have hfound : m.definition.find? (m.definition.node i).id = some i :=
      wf.find?_eq_some_iff.mpr ⟨hi, (Text.dropLeading_eq hplain).symm⟩
    exact ⟨names_of_found hfound, names_of_found (by rw [Definition.find?_sign, hfound])⟩
  · exact wf.plain_of_find? hfound hsign

set_option maxRecDepth 100000 in
/-- The open hall is named by its id in all places. -/
theorem hall_open_named : hall.definition.Accepted ∧ (hall.definition.node 1).id = "hall.open" ∧
    Definition.resolveTarget hall.definition.drafts 0 "#hall.open" = .ok 1 ∧
    hall.Names "hall.open" 1 ∧ hall.Names "#hall.open" 1 := by
  have hhall : (Definition.ofJson (L := Logic) hallJson).isOk = true := rfl
  have haccepted : hall.definition.Accepted := Definition.accepted_of_isOk hhall
  have hid : (hall.definition.node 1).id = "hall.open" := rfl
  have hsize : 1 < hall.definition.nodes.size := of_decide_eq_true rfl
  obtain ⟨htarget, hnames, -⟩ := id_names_state haccepted hsize
  rw [hid] at htarget hnames
  obtain ⟨hplain, hsign⟩ := hnames (by decide)
  exact ⟨haccepted, hid, htarget 0, hplain, hsign⟩

/-- A shelf with a box whose id begins with the sign for ids. -/
def shelfJson : Json :=
  .obj [("id", .str "shelf"), ("initial", .str "box"), ("states", .obj
    [("box", .obj [("id", .str "#box")])])]

def shelf : Machine where
  definition := (Definition.ofJson shelfJson).toOption.getD default
  implementations := default
  spawn := Statechart.spawn

set_option maxRecDepth 100000 in
/-- The box is a target by its id. It is active, but not by its id, and what is stored under its id
is not brought back. -/
theorem shelf_loses_box : shelf.definition.Accepted ∧ (shelf.definition.node 1).id = "#box" ∧
    Definition.resolveTarget shelf.definition.drafts 0 "##box" = .ok 1 ∧
    (∃ config, shelf.definition.ofValue (.leaf "box") = .ok config ∧ config.contains 1 = true ∧
      shelf.definition.isActive config "#box" = false ∧
      shelf.definition.isActive config "##box" = false) ∧
    shelf.storedHistory [] [("#box", [])] =
      .error (.restore "unknown history state '#box'") := by
  have hshelf : (Definition.ofJson (L := Logic) shelfJson).isOk = true := rfl
  exact ⟨Definition.accepted_of_isOk hshelf, rfl, rfl, ⟨_, rfl, rfl, rfl, rfl⟩, rfl⟩

end Machine

end Statechart
