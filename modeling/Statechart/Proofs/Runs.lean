import Statechart.Machine
import Statechart.Proofs.Confined

/-!
# Runs of a machine

A macrostep changes configuration and history by microsteps of selected transitions only
(`settle_keeps`), so what these keep holds of every snapshot of a run (`Reaches.keeps`).
-/

namespace Statechart.Machine

open StepM

variable (m : Machine)

/-- The snapshots of runs: the first one, and the one after each event. What a machine is given, the
scope it runs in and the events, may be anything. -/
inductive Reaches : MachineSnapshot → Prop
  | initial {scope scope' : Scope} {input : Json} {s : MachineSnapshot} :
      m.initialState scope input = (scope', .ok s) → Reaches s
  | next {scope scope' : Scope} {s s' : MachineSnapshot} {event : Event} : Reaches s →
      m.transition scope s event = (scope', .ok s') → Reaches s'

/-- What holds of a configuration and a history is kept by microsteps of selected transitions. -/
def Kept (P : Configuration → HistoryValue → Prop) : Prop :=
  ∀ {w w' : Work} {ts : List Nat} {cause event : Event},
    m.definition.select (m.situation w.snapshot) cause = .ok ts ∨
      m.definition.selectEventless (m.situation w.snapshot) cause = .ok ts →
    m.microstep ts event w = .ok () w' →
    P w.snapshot.config w.snapshot.history → P w'.snapshot.config w'.snapshot.history

variable {m} {P : Configuration → HistoryValue → Prop} {w w' : Work} {event : Event}

/-- What taking an event leads to: without a transition for it an error fails the machine, and any
other event changes nothing. -/
theorem handle_ok (h : m.handle event w = .ok () w') :
    ∃ ts, m.definition.select (m.situation w.snapshot) event = .ok ts ∧
      ((ts = [] ∧ event.isError = true ∧ w' = { w with
          snapshot := { w.snapshot with status := .error, error := some event.data }
          journal := .handled event [] :: w.journal }) ∨
        (ts = [] ∧ event.isError = false ∧
          w' = { w with journal := .handled event [] :: w.journal }) ∨
        ts ≠ [] ∧ m.microstep ts event { w with journal := .handled event ts :: w.journal } =
          .ok () w') := by
  obtain ⟨_, _, hget, h⟩ := bind_eq_ok h
  cases hget
  cases hselect : m.definition.select (m.situation w.snapshot) event with
  | error e =>
      rw [hselect] at h
      cases h
  | ok ts =>
      rw [hselect] at h
      obtain ⟨_, w₁, hmark, h⟩ := bind_eq_ok h
      cases hmark
      refine ⟨ts, rfl, ?_⟩
      -- nothing selected, or a microstep
      by_cases hempty : ts.isEmpty = true
      · obtain rfl : ts = [] := List.isEmpty_iff.mp hempty
        rw [if_pos hempty] at h
        split at h
        · rename_i herror
          cases h
          exact .inl ⟨rfl, herror, rfl⟩
        · rename_i herror
          cases h
          exact .inr (.inl ⟨rfl, by simpa using herror, rfl⟩)
      · rw [if_neg hempty] at h
        exact .inr (.inr ⟨fun hnil => hempty (by simp [hnil]), h⟩)

theorem selectEventless_ok {ts : List Nat} (h : m.selectEventless event w = .ok ts w') :
    w' = w ∧ m.definition.selectEventless (m.situation w.snapshot) event = .ok ts := by
  obtain ⟨_, _, hget, h⟩ := bind_eq_ok h
  cases hget
  cases hselect : m.definition.selectEventless (m.situation w.snapshot) event with
  | error e =>
      rw [hselect] at h
      cases h
  | ok ts' =>
      rw [hselect] at h
      cases h
      exact ⟨rfl, rfl⟩

theorem nextInternal_ok {next : Option Event} (h : nextInternal w = .ok next w') :
    next = none ∧ w' = w ∧ w.internal = [] ∨
      ∃ e rest, next = some e ∧ w.internal = e :: rest ∧ w' = { w with internal := rest } := by
  obtain ⟨_, _, hget, h⟩ := bind_eq_ok h
  cases hget
  cases hinternal : w.internal with
  | nil =>
      rw [hinternal] at h
      cases h
      exact .inl ⟨rfl, rfl, rfl⟩
  | cons e rest =>
      rw [hinternal] at h
      cases h
      exact .inr ⟨e, rest, rfl, rfl, rfl⟩

theorem handle_keeps (hP : m.Kept P) (h : m.handle event w = .ok () w')
    (hw : P w.snapshot.config w.snapshot.history) : P w'.snapshot.config w'.snapshot.history := by
  obtain ⟨ts, hselect, ⟨-, -, rfl⟩ | ⟨-, -, rfl⟩ | ⟨-, hstep⟩⟩ := handle_ok h
  · exact hw
  · exact hw
  · exact hP (w := { w with journal := .handled event ts :: w.journal }) (.inl hselect) hstep hw

/-- An event for which something is selected is told of and leads to a microstep. -/
theorem handle_of_select {ts : List Nat}
    (hselect : m.definition.select (m.situation w.snapshot) event = .ok ts) (hsome : ts ≠ []) :
    m.handle event w =
      m.microstep ts event { w with journal := .handled event ts :: w.journal } := by
  rw [handle, bind_of_ok (get_ok w)]
  simp only [hselect]
  rw [bind_of_ok (mark_ok _ w), if_neg (by simpa using hsome)]

/-- To take a report lets one child go at most. -/
theorem releaseCompleted_sublist (event : Event) (w : Work) : ∃ children,
    releaseCompleted event w = .ok () { w with snapshot := { w.snapshot with children } } ∧
      children.Sublist w.snapshot.children := by
  cases hrelease : releaseCompleted event w with
  | error e w' => cases hrelease
  | ok _ w' =>
      cases hrelease
      cases hid : event.completedChild? with
      | none => exact ⟨_, rfl, .refl _⟩
      | some id =>
          cases hchild : w.snapshot.child? id with
          | none => exact ⟨w.snapshot.children, by simp only [hchild], .refl _⟩
          | some child =>
              by_cases horigin : event.origin = some child.text
              · exact ⟨SortedMap.erase id w.snapshot.children,
                  by simp only [hchild, if_pos horigin], List.filter_sublist⟩
              · exact ⟨w.snapshot.children, by simp only [hchild, if_neg horigin], .refl _⟩

theorem releaseCompleted_ok (h : releaseCompleted event w = .ok () w') :
    ∃ children, w' = { w with snapshot := { w.snapshot with children } } := by
  obtain ⟨children, hrelease, -⟩ := releaseCompleted_sublist event w
  cases hrelease.symm.trans h
  exact ⟨children, rfl⟩

variable (m) in
/-- Nothing is left to do but to take the next external event. -/
structure Rests (last : Event) (w : Work) : Prop where
  active : w.snapshot.status = .active
  eventless : m.definition.selectEventless (m.situation w.snapshot) last = .ok []
  internal : w.internal = []

/-! ## Phases -/

/-- How far a macrostep has got: the external event for as long as it waits, the event that guards of
transitions without an event see, and the state of the step. -/
structure Progress where
  pending : Option Event
  last : Event
  work : Work

variable (m) in
/-- What a macrostep does at a time. -/
inductive Phase : Progress → Progress → Prop
  | eventless {p : Progress} {ts : List Nat} {w : Work}
      (hactive : p.work.snapshot.status = .active)
      (hselect : m.definition.selectEventless (m.situation p.work.snapshot) p.last = .ok ts)
      (hsome : ts ≠ [])
      (hstep : m.microstep ts p.last
        { p.work with journal := .eventless p.last ts :: p.work.journal } = .ok () w) :
      Phase p { p with work := w }
  | internal {p : Progress} {next : Event} {rest : List Event} {w : Work}
      (hactive : p.work.snapshot.status = .active)
      (hquiet : m.definition.selectEventless (m.situation p.work.snapshot) p.last = .ok [])
      (hnext : p.work.internal = next :: rest)
      (hhandle : m.handle next { p.work with internal := rest } = .ok () w) :
      Phase p { p with last := next, work := w }
  | external {p : Progress} {event : Event} {w₁ w : Work} (hpending : p.pending = some event)
      (hrests : m.Rests p.last p.work) (hrelease : releaseCompleted event p.work = .ok () w₁)
      (hhandle : m.handle event w₁ = .ok () w) :
      Phase p { pending := none, last := event, work := w }

variable (m) in
/-- A macrostep has come to its end: the machine is no longer active, or there is nothing left. -/
def Ended (p : Progress) : Prop :=
  p.work.snapshot.status ≠ .active ∨ p.pending = none ∧ m.Rests p.last p.work

/-- A macrostep that goes through has come to its end or goes on with a phase. -/
theorem settle_phase {fuel : Nat} {p : Progress}
    (h : m.settle (fuel + 1) p.pending p.last p.work = .ok () w') :
    w' = p.work ∧ m.Ended p ∨
      ∃ p', m.Phase p p' ∧ m.settle fuel p'.pending p'.last p'.work = .ok () w' := by
  obtain ⟨_, _, hget, h⟩ := bind_eq_ok h
  cases hget
  split at h
  · rename_i hstatus
    cases h
    exact .inl ⟨rfl, .inl hstatus⟩
  · rename_i hactive
    -- first what needs no event, then what waits inside, and then the event from outside
    replace hactive := not_not.mp hactive
    obtain ⟨ts, w₀, hfind, h'⟩ := bind_eq_ok h
    obtain ⟨rfl, hselect⟩ := selectEventless_ok hfind
    clear h
    split at h'
    · rename_i hsome
      obtain ⟨_, w₁, hmark, h⟩ := bind_eq_ok h'
      cases hmark
      obtain ⟨_, w₁, hstep, h⟩ := bind_eq_ok h
      exact .inr ⟨_, .eventless hactive hselect (by simpa using hsome) hstep, h⟩
    · rename_i hempty
      obtain rfl : ts = [] := by simpa using hempty
      obtain ⟨next, w₁, hnext, htake⟩ := bind_eq_ok h'
      clear h'
      rcases nextInternal_ok hnext with ⟨rfl, rfl, hinternal⟩ | ⟨e, rest, rfl, hinternal, rfl⟩
      · have hrests : m.Rests p.last p.work := ⟨hactive, hselect, hinternal⟩
        cases hpending : p.pending with
        | none =>
            rw [hpending] at htake
            cases htake
            exact .inl ⟨rfl, .inr ⟨hpending, hrests⟩⟩
        | some external =>
            rw [hpending] at htake
            obtain ⟨_, w₂, hrelease, htake⟩ := bind_eq_ok htake
            obtain ⟨_, w₃, hhandle, htake⟩ := bind_eq_ok htake
            exact .inr ⟨_, .external hpending hrests hrelease hhandle, htake⟩
      · obtain ⟨_, w₂, hhandle, htake⟩ := bind_eq_ok htake
        exact .inr ⟨_, .internal hactive hselect hinternal hhandle, htake⟩

/-- What one round of a macrostep can do. -/
theorem settle_ok {fuel : Nat} {pending : Option Event} {last : Event}
    (h : m.settle (fuel + 1) pending last w = .ok () w') :
    w' = w ∧ (w.snapshot.status ≠ .active ∨ pending = none ∧ m.Rests last w) ∨
    (∃ ts w₁, m.definition.selectEventless (m.situation w.snapshot) last = .ok ts ∧
      m.microstep ts last { w with journal := .eventless last ts :: w.journal } = .ok () w₁ ∧
        m.settle fuel pending last w₁ = .ok () w') ∨
    (∃ next rest w₁, w.internal = next :: rest ∧
      m.handle next { w with internal := rest } = .ok () w₁ ∧
        m.settle fuel pending next w₁ = .ok () w') ∨
    ∃ external w₁ w₂, pending = some external ∧ m.Rests last w ∧
      releaseCompleted external w = .ok () w₁ ∧ m.handle external w₁ = .ok () w₂ ∧
        m.settle fuel none external w₂ = .ok () w' := by
  rcases settle_phase (p := ⟨pending, last, w⟩) h with hend | ⟨p', hphase, h⟩
  · exact .inl hend
  · cases hphase with
    | eventless _ hselect _ hstep => exact .inr (.inl ⟨_, _, hselect, hstep, h⟩)
    | internal _ _ hnext hhandle => exact .inr (.inr (.inl ⟨_, _, _, hnext, hhandle, h⟩))
    | external hpending hrests hrelease hhandle =>
        exact .inr (.inr (.inr ⟨_, _, _, hpending, hrests, hrelease, hhandle, h⟩))

theorem settle_at_rest {pending : Option Event} {last : Event} (hrests : m.Rests last w)
    (fuel : Nat) : m.settle (fuel + 1) pending last w =
      (match pending with
        | some external => do
            releaseCompleted external
            m.handle external
            m.settle fuel none external
        | none => return : StepM Unit) w := by
  obtain ⟨hactive, heventless, hinternal⟩ := hrests
  have hselected : m.selectEventless last w = .ok [] w := by
    rw [selectEventless, bind_of_ok (get_ok w), heventless]
    rfl
  have hnext : nextInternal w = .ok none w := by
    rw [nextInternal, bind_of_ok (get_ok w), hinternal]
    rfl
  conv_lhs => unfold settle
  rw [bind_of_ok (get_ok w), if_neg (not_not.mpr hactive), bind_of_ok hselected,
    if_neg (by simp)]
  exact bind_of_ok hnext

/-- A machine that has nothing left to do takes the external event. -/
theorem settle_of_rests {external last : Event} (hrests : m.Rests last w) (fuel : Nat) :
    m.settle (fuel + 1) (some external) last w =
      (do releaseCompleted external; m.handle external; m.settle fuel none external) w :=
  settle_at_rest hrests fuel

/-- Once that is taken it is through. -/
theorem settle_through {last : Event} (hrests : m.Rests last w) (fuel : Nat) :
    m.settle (fuel + 1) none last w = .ok () w :=
  settle_at_rest hrests fuel

theorem settle_keeps (hP : m.Kept P) : ∀ {fuel : Nat} {pending : Option Event} {last : Event}
    {w : Work}, m.settle fuel pending last w = .ok () w' →
      P w.snapshot.config w.snapshot.history → P w'.snapshot.config w'.snapshot.history := by
  intro fuel
  induction fuel with
  | zero =>
      intro pending last w h hw
      obtain ⟨_, _, hget, h⟩ := bind_eq_ok h
      cases h
  | succ fuel ih =>
      intro pending last w h hw
      rcases settle_ok h with ⟨rfl, -⟩ | ⟨ts, w₁, hselect, hstep, h⟩ |
        ⟨next, rest, w₁, -, hhandle, h⟩ | ⟨external, w₁, w₂, -, -, hrelease, hhandle, h⟩
      · exact hw
      · exact ih h (hP (w := { w with journal := .eventless last ts :: w.journal })
          (.inr hselect) hstep hw)
      · exact ih h (handle_keeps hP hhandle hw)
      · obtain ⟨children, rfl⟩ := releaseCompleted_ok hrelease
        exact ih h (handle_keeps hP hhandle hw)

/-! ## Runs -/

theorem outcome_ok {pins : List Session} {before : Option MachineSnapshot}
    {result : EStateM.Result ActorError Work Unit} {scope : Scope} {s : MachineSnapshot}
    (h : outcome pins before result = (scope, .ok s)) :
    ∃ w, result = .ok () w ∧ s = finish before w.snapshot := by
  cases result with
  | ok _ w =>
      cases h
      exact ⟨w, rfl, rfl⟩
  | error e w => cases h

/-- What the first configuration has and microsteps of selected transitions keep holds of every
snapshot of a run. -/
theorem Reaches.keeps (hP : m.Kept P)
    (hfirst : ∀ {w w' : Work} {event : Event}, w.snapshot.config = .empty →
      w.snapshot.history = [] → m.enterInitial event w = .ok () w' →
        P w'.snapshot.config w'.snapshot.history)
    {s : MachineSnapshot} (h : m.Reaches s) : P s.config s.history := by
  induction h with
  | initial h =>
      obtain ⟨w, hrun, rfl⟩ := outcome_ok h
      obtain ⟨_, w₁, henter, hsettle⟩ := bind_eq_ok hrun
      exact settle_keeps hP hsettle (hfirst rfl rfl henter)
  | next _ h ih =>
      unfold transition at h
      split at h
      · obtain ⟨w, hrun, rfl⟩ := outcome_ok h
        exact settle_keeps hP hrun ih
      · cases h
        exact ih

/-! ## Valid configurations -/

/-- What runs keep of configuration and history. -/
def Sound (d : Definition Logic) (config : Configuration) (history : HistoryValue) : Prop :=
  d.Possible config ∧ d.Recordable history

theorem kept_sound (wf : m.definition.WellFormed) (hdef : m.definition.Definite)
    (hcont : m.definition.Contained) : m.Kept (Sound m.definition) := by
  rintro w w' ts cause event hselect hstep ⟨hconfig, hrec⟩
  have hsel : m.definition.Selection (m.situation w.snapshot) ts :=
    hselect.elim wf.selection_of_select wf.selection_of_selectEventless
  exact possible_microstep wf hdef hcont hconfig hrec hsel hstep

theorem sound_enterInitial (wf : m.definition.WellFormed) (hempty : w.snapshot.config = .empty)
    (hnil : w.snapshot.history = []) (h : m.enterInitial event w = .ok () w') :
    Sound m.definition w'.snapshot.config w'.snapshot.history := by
  have hhist : (m.definition.node Definition.rootIndex).isHistory = false := by
    simpa [StateNode.isHistory, Definition.rootIndex] using wf.root_kind.1
  constructor
  · rw [enterInitial_ok wf hempty h]
    exact wf.possible_resolve (wf.agreeing_singleton wf.size_pos hhist) (by simp)
  · rw [(enter_ok h).1, hnil]
    exact Definition.recordable_nil

/-- Transitions with one target each, and history states with one default below their parent,
whose transitions enter nothing beside their domains, only ever lead to valid configurations. The
condition cannot be dropped: after a step of a single transition the configuration is valid exactly
if the step enters nothing inactive beside its domain. -/
theorem valid_of_reaches {json : Json} (hjson : Definition.ofJson json = .ok m.definition)
    (hdef : m.definition.Definite) :
    (m.definition.Contained → ∀ s, m.Reaches s → m.definition.isValid s.config = true) ∧
    ∀ (w w' : Work) (cause event : Event) (k : Nat),
      m.definition.Possible w.snapshot.config → m.definition.Recordable w.snapshot.history →
      (m.definition.select (m.situation w.snapshot) cause = .ok [k] ∨
        m.definition.selectEventless (m.situation w.snapshot) cause = .ok [k]) →
      m.microstep [k] event w = .ok () w' →
      (m.definition.isValid w'.snapshot.config = true ↔
        ∀ i ∈ m.definition.entrySet (m.historyAfter w.snapshot (m.definition.permitted [k]))
            (m.definition.permitted [k]), i ∈ w.snapshot.config ∨
          m.definition.Under
            (m.definition.domain w.snapshot.history (m.definition.transition k)) i) := by
  have wf := Definition.wellFormed_of_ofJson hjson
  constructor
  · intro hcont s hs
    have hsound := hs.keeps (kept_sound wf hdef hcont) (sound_enterInitial wf)
    exact (wf.possible_iff.mp hsound.1).1
  · intro w w' cause event k hconfig hrec hselect hstep
    exact isValid_iff_of_single wf hdef hconfig hrec
      (hselect.elim wf.selection_of_select wf.selection_of_selectEventless) hstep

/-- The event that flips the lamps. -/
def flip : Event := { name := "FLIP" }

set_option maxRecDepth 100000 in
theorem lamps_stay_valid : ∃ s, lamps.Reaches s ∧ s.config.toList = [0, 1, 3, 4, 6] ∧
    lamps.definition.isValid s.config = true := by
  have hjson : (Definition.ofJson (L := Logic) lampsJson).isOk = true := rfl
  have hnodes : (List.range 7).all (fun i => !(lamps.definition.node i).isHistory) = true := rfl
  have hplain : ∀ t < lamps.definition.transitions.size,
      lamps.definition.Plain (lamps.definition.transition t) := by
    intro t ht
    have hsize : lamps.definition.transitions.size = 2 := rfl
    rw [hsize] at ht
    match t, ht with
    | 0, _ => exact .inr ⟨3, rfl, rfl, .inr (by decide)⟩
    | 1, _ => exact .inr ⟨6, rfl, rfl, .inr (by decide)⟩
  have hnone : ∀ h, (lamps.definition.node h).isHistory = false := by
    intro h
    by_cases hlt : h < 7
    · simpa using List.all_eq_true.mp hnodes h (List.mem_range.mpr hlt)
    · rw [Definition.node_of_size_le (Nat.not_lt.mp hlt)]
      rfl
  have hdef := Definition.WellFormed.definite_of_plain hplain hnone
  have hcont := (Definition.wellFormed_of_ofJson (ok_of_isOk hjson)).contained_of_plain hplain
  obtain ⟨scope, s, hfirst, scope', s', hnext, hlit⟩ :
      ∃ scope s, lamps.initialState default .null = (scope, .ok s) ∧
        ∃ scope' s', lamps.transition default s flip = (scope', .ok s') ∧
          s'.config.toList = [0, 1, 3, 4, 6] := ⟨_, _, rfl, _, _, rfl, rfl⟩
  have hs : lamps.Reaches s' := .next (.initial hfirst) hnext
  exact ⟨s', hs, hlit, (valid_of_reaches (ok_of_isOk hjson) hdef).1 hcont s' hs⟩

/-- Two parallel states, one of which has a transition from a leaf to itself. -/
def gateJson : Json :=
  .obj [("id", .str "gate"), ("type", .str "parallel"), ("states", .obj
    [("left", .obj [("initial", .str "idle"), ("states", .obj
        [("idle", .obj [("on", .obj [("GO", .str "idle")])])])]),
      ("right", .obj [("initial", .str "off"), ("states", .obj
        [("off", .obj [("on", .obj [("GO", .str "on")])]), ("on", .obj [])])])])]

def gate : Machine where
  definition := (Definition.ofJson gateJson).toOption.getD default
  implementations := default
  spawn := default

set_option maxRecDepth 100000 in
/-- Single targets alone do not keep configurations valid: a transition from a leaf to itself climbs
past its domain up to the root, and enters the other regions by default on the way. -/
theorem gate_breaks : ¬ ∀ (m : Machine) (json : Json), Definition.ofJson json = .ok m.definition →
    (∀ t < m.definition.transitions.size, (m.definition.transition t).targets.length ≤ 1) →
    (∀ h, (m.definition.node h).historyDefault.length ≤ 1) →
    ∀ s, m.Reaches s → m.definition.isValid s.config = true := by
  intro hall
  have hjson : (Definition.ofJson (L := Logic) gateJson).isOk = true := rfl
  have htransitions : (List.range 2).all
      (fun t => decide ((gate.definition.transition t).targets.length ≤ 1)) = true := rfl
  have hnodes : (List.range 6).all
      (fun h => decide ((gate.definition.node h).historyDefault.length ≤ 1)) = true := rfl
  obtain ⟨scope, s, hfirst, scope', s', hnext, hinvalid⟩ :
      ∃ scope s, gate.initialState default .null = (scope, .ok s) ∧
        ∃ scope' s', gate.transition default s { name := "GO" } = (scope', .ok s') ∧
          gate.definition.isValid s'.config = false := ⟨_, _, rfl, _, _, rfl, rfl⟩
  have hvalid := hall gate gateJson (ok_of_isOk hjson) (fun t ht => ?_) (fun h => ?_) s'
    (.next (.initial hfirst) hnext)
  · rw [hinvalid] at hvalid
    cases hvalid
  · simpa using List.all_eq_true.mp htransitions t (List.mem_range.mpr ht)
  · by_cases hlt : h < 6
    · simpa using List.all_eq_true.mp hnodes h (List.mem_range.mpr hlt)
    · rw [Definition.node_of_size_le (Nat.not_lt.mp hlt)]
      exact Nat.zero_le 1

end Statechart.Machine
