import Statechart.Actor.Spawn
import Statechart.Proofs.Offspring
import Statechart.Proofs.StateValue

/-!
# Making actors

The actors of stored machines are made with them. Whatever a behaviour does, the system stays sound
(`sound_spawn`), and the snapshots that come out of it suit the behaviour.
-/

namespace Statechart

namespace Machine

variable {m : Machine} {parent : Option Session} {scope scope' : Scope}
  {result : Except ActorError MachineSnapshot}

/-! ## Restoring -/

/-- What is asked for to bring a child back. -/
def restoredSpec (scope : Scope) (id source : String) (child : PersistedChild PersistedSnapshot) :
    ActorSpec where
  id := some id
  parent := some scope.session
  source := some source
  systemId := child.systemId
  snapshot := some child.snapshot

/-- A child that cannot be brought back is passed over. -/
theorem restoreChildren_skip (id : String) {child : PersistedChild PersistedSnapshot}
    (hskip : ∀ key, child.source = some key → m.implementations.actors key = none)
    (scope : Scope) (made : List (String × Session))
    (rest : List (String × PersistedChild PersistedSnapshot)) :
    ∃ n, m.restoreChildren scope made ((id, child) :: rest) =
      m.restoreChildren { scope with system := scope.system.note n } made rest := by
  rw [restoreChildren]
  cases hsource : child.source with
  | none => exact ⟨_, rfl⟩
  | some key =>
      refine ⟨.unknownChildSkipped m.definition.id id key, ?_⟩
      simp only [hskip key hsource]

/-- A child that can be brought back is made. -/
theorem restoreChildren_make (id : String) {source : String}
    {child : PersistedChild PersistedSnapshot} {logic : Logic} (hsource : child.source = some source)
    (hlogic : m.implementations.actors source = some logic) (scope : Scope)
    (made : List (String × Session)) (rest : List (String × PersistedChild PersistedSnapshot)) :
    ∃ keeps, m.restoreChildren scope made ((id, child) :: rest) =
      match m.spawn (scope.system.pinning keeps) logic (restoredSpec scope id source child) with
      | (system, .error e) =>
          ({ scope with system := { system with pins := scope.system.pins } }, .error e)
      | (system, .ok session) =>
          m.restoreChildren
            { scope with
              system := { system with pins := scope.system.pins }
              effects := scope.effects ++ [.start session] }
            (SortedMap.insert id session made) rest := by
  refine ⟨made.map Prod.snd ++ scope.effects.flatMap Effect.keeps, ?_⟩
  obtain ⟨definition, implementations, spawn⟩ := m
  rw [restoreChildren]
  simp only at hlogic
  simp only [hsource, hlogic, restoredSpec]
  generalize spawn _ _ _ = child
  obtain ⟨system, result⟩ := child
  cases result <;> rfl

/-- One stored child is passed over, cannot be made, or is brought back as a child. -/
theorem restoreChildren_next {id : String} {child : PersistedChild PersistedSnapshot}
    {rest : List (String × PersistedChild PersistedSnapshot)} {made : List (String × Session)}
    {result : Except ActorError (List (String × Session))}
    (h : m.restoreChildren scope made ((id, child) :: rest) = (scope', result))
    (hspawn : Spawner.Sound m.spawn) (hsound : scope.system.Sound) :
    ∃ scope₁, scope.system.Thrives scope₁.system ∧
      ((∃ e, result = .error e ∧ scope' = scope₁) ∨ ∃ made',
        m.restoreChildren scope₁ made' rest = (scope', result) ∧ ∀ parent, scope.Belongs parent →
          Offspring scope.system parent m.implementations made →
            scope₁.Belongs parent ∧ Offspring scope₁.system parent m.implementations made') := by
  by_cases hskip : ∀ key, child.source = some key → m.implementations.actors key = none
  · obtain ⟨n, heq⟩ := restoreChildren_skip id hskip scope made rest
    rw [heq] at h
    have hnoted : scope.system.Thrives (scope.system.note n) :=
      hsound.thrives.quiet (.of_eq rfl rfl rfl rfl)
    exact ⟨_, hnoted, .inr ⟨made, h, fun parent hscope hmade =>
      ⟨hscope, hmade.mono hnoted.grown.follows⟩⟩⟩
  · push Not at hskip
    obtain ⟨source, hsource, hknown⟩ := hskip
    obtain ⟨logic, hlogic⟩ := Option.ne_none_iff_exists'.mp hknown
    obtain ⟨keeps, heq⟩ := restoreChildren_make id hsource hlogic scope made rest
    rw [heq] at h
    have hpinned := hsound.thrives.quiet (quiet_pinning scope.system keeps)
    split at h
    · rename_i system e hchild
      cases h
      exact ⟨_, (hpinned.trans (hspawn hpinned.sound hchild).1).quiet (.of_eq rfl rfl rfl rfl),
        .inl ⟨e, rfl, rfl⟩⟩
    · rename_i system session hchild
      obtain ⟨hgrown, hspec⟩ := hspawn hpinned.sound hchild
      obtain ⟨hlate, a, ha, hmakes⟩ := hspec session rfl
      have hnow : scope.system.Thrives { system with pins := scope.system.pins } :=
        (hpinned.trans hgrown).quiet (.of_eq rfl rfl rfl rfl)
      refine ⟨_, hnow, .inr ⟨_, h, fun parent hscope hmade =>
        ⟨hscope.mono rfl hnow.grown.next, ?_⟩⟩⟩
      -- the child behaves as the key says that it was stored with
      have hknown : ∀ key, a.source = some key →
          m.implementations.actors key = some a.logic := by
        intro key hk
        rw [hmakes.source] at hk
        cases hk
        rw [hmakes.logic]
        exact hlogic
      have hfamily : ∀ p, parent = some p → p.number < session.number ∧ a.parent = some p := by
        intro p hp
        obtain ⟨rfl, hlt⟩ := hscope p hp
        exact ⟨Nat.lt_of_lt_of_le hlt hlate, hmakes.parent⟩
      have hid : a.id = id := hmakes.id id rfl
      rw [← hid]
      exact offspring_insert (hmade.mono hnow.grown.follows) ha hfamily hknown

theorem restoreChildren_thrives {stored : List (String × PersistedChild PersistedSnapshot)}
    {made : List (String × Session)} {result : Except ActorError (List (String × Session))}
    (h : m.restoreChildren scope made stored = (scope', result)) (hspawn : Spawner.Sound m.spawn)
    (hsound : scope.system.Sound) : scope.system.Thrives scope'.system := by
  induction stored generalizing scope made with
  | nil =>
      cases h
      exact hsound.thrives
  | cons entry rest ih =>
      obtain ⟨scope₁, hthrives, ⟨e, -, rfl⟩ | ⟨made', hrest, -⟩⟩ :=
        restoreChildren_next h hspawn hsound
      · exact hthrives
      · exact hthrives.trans (ih hrest hthrives.sound)

theorem restoreChildren_spec {stored : List (String × PersistedChild PersistedSnapshot)}
    {made children : List (String × Session)}
    (h : m.restoreChildren scope made stored = (scope', .ok children))
    (hspawn : Spawner.Sound m.spawn) (hsound : scope.system.Sound) (hscope : scope.Belongs parent)
    (hmade : Offspring scope.system parent m.implementations made) :
    Offspring scope'.system parent m.implementations children := by
  induction stored generalizing scope made with
  | nil =>
      cases h
      exact hmade
  | cons entry rest ih =>
      obtain ⟨scope₁, hthrives, ⟨e, he, -⟩ | ⟨made', hrest, hkeeps⟩⟩ :=
        restoreChildren_next h hspawn hsound
      · cases he
      · obtain ⟨hscope₁, hmade'⟩ := hkeeps parent hscope hmade
        exact ih hrest hthrives.sound hscope₁ hmade'

theorem storedState_lt {what id : String} {i : Nat} (h : m.storedState what id = .ok i) :
    i < m.definition.nodes.size := by
  unfold storedState at h
  split at h
  · rename_i j hfind
    cases h
    rw [Definition.find?, List.findIdx?_eq_some_iff_getElem] at hfind
    obtain ⟨hlt, -⟩ := hfind
    simpa using hlt
  · cases h

theorem storedStates_lt : ∀ {ids : List String} {states : List Nat},
    m.storedStates ids = .ok states → ∀ x ∈ states, x < m.definition.nodes.size
  | [], _, h => by
      cases h
      simp
  | id :: rest, _, h => by
      obtain ⟨i, hi, h⟩ := Except.bind_eq_ok.mp h
      obtain ⟨others, hothers, h⟩ := Except.bind_eq_ok.mp h
      cases h
      intro x hx
      rcases List.mem_cons.mp hx with rfl | hx
      · exact storedState_lt hi
      · exact storedStates_lt hothers x hx

theorem storedHistory_spec : ∀ {stored : List (String × List String)}
    {done history : HistoryValue}, m.storedHistory done stored = .ok history →
      SortedMap.Sorted done → m.definition.Known done →
        SortedMap.Sorted history ∧ m.definition.Known history
  | [], _, _, h, hsorted, hknown => by
      cases h
      exact ⟨hsorted, hknown⟩
  | (id, ids) :: rest, _, _, h, hsorted, hknown => by
      obtain ⟨i, hi, h⟩ := Except.bind_eq_ok.mp h
      obtain ⟨states, hstates, h⟩ := Except.bind_eq_ok.mp h
      exact storedHistory_spec h (hsorted.insert i states)
        (hknown.insert (storedState_lt hi) (storedStates_lt hstates))

/-- What is brought back without children suits the machine once it is brought in line. -/
theorem restoreOwn_spec {stored : PersistedSnapshot} {s : MachineSnapshot}
    (h : m.restoreOwn stored = .ok s) : s.definition = m.definition ∧
      SortedMap.Sorted s.history ∧ (m.definition.WellFormed →
        m.definition.Existing s.config ∧ m.definition.Known s.history) := by
  unfold restoreOwn at h
  split at h <;> obtain ⟨value, hvalue, h⟩ := Except.bind_eq_ok.mp h <;> cases hvalue
  obtain ⟨config, hconfig, h⟩ := Except.bind_eq_ok.mp h
  obtain ⟨history, hhistory, h⟩ := Except.bind_eq_ok.mp h
  cases h
  obtain ⟨hsorted, hknown⟩ :=
    storedHistory_spec hhistory SortedMap.sorted_nil Definition.known_nil
  exact ⟨rfl, hsorted, fun wf => ⟨wf.existing_ofValue hconfig, hknown⟩⟩

theorem quiet_checkOrigin (stored : PersistedSnapshot) (sys : System) :
    sys.Quiet (m.checkOrigin stored sys) := by
  unfold checkOrigin
  split
  · exact .refl sys
  · split
    · exact .refl sys
    · exact .of_eq rfl rfl rfl rfl

theorem restore_thrives {stored : PersistedSnapshot} (h : m.restore scope stored = (scope', result))
    (hspawn : Spawner.Sound m.spawn) (hsound : scope.system.Sound) :
    scope.system.Thrives scope'.system := by
  have hchecked := hsound.thrives.quiet (quiet_checkOrigin (m := m) stored scope.system)
  unfold restore at h
  simp only at h
  split at h
  · cases h
    exact hchecked
  · split at h <;> cases h <;>
    · rename_i hmade
      exact hchecked.trans (restoreChildren_thrives hmade hspawn hchecked.sound)

theorem restore_spec {stored : PersistedSnapshot} {next : MachineSnapshot}
    (h : m.restore scope stored = (scope', .ok next)) (hspawn : Spawner.Sound m.spawn)
    (hsound : scope.system.Sound) (hscope : scope.Belongs parent) :
    next.Suits scope'.system parent m.definition m.implementations := by
  have hchecked := hsound.thrives.quiet (quiet_checkOrigin (m := m) stored scope.system)
  unfold restore at h
  simp only at h
  split at h
  · cases h
  · rename_i s hown
    obtain ⟨hdef, hsorted, hexisting⟩ := restoreOwn_spec hown
    split at h
    · cases h
    · rename_i scope₁ children hmade
      cases h
      refine ⟨hdef, ?_, ?_, hsorted, hexisting, restoreChildren_spec hmade hspawn hchecked.sound
        (hscope.mono rfl hchecked.grown.next) .nil⟩
      · show s.definition.stateValue s.config = _
        rw [hdef]
        rfl
      · show s.definition.tags s.config = _
        rw [hdef]
        rfl

end Machine

/-! ## Behaviours -/

/-- Reports and sends of a reducer or a task do not concern the actors that there are. -/
theorem Scope.thrives_absorb {α : Type} (scope : Scope) (h : scope.system.Sound) (o : Outcome α) :
    scope.system.Thrives (scope.absorb o).system := by
  have hreport : ∀ (lines : List Json) (sys : System), sys.Quiet (sys.report lines) := by
    intro lines
    induction lines with
    | nil => exact fun sys => .refl sys
    | cons line rest ih =>
        have hrecord : ∀ sys : System, sys.Quiet (sys.record (.line line)) :=
          fun _ => .of_eq rfl rfl rfl rfl
        exact fun sys => (hrecord sys).trans (ih _)
  exact h.thrives.quiet (hreport _ _)

section Behaviours

variable {spawn : Spawner} {scope scope' : Scope} {logic : Logic} {parent : Option Session}
  {s next : Snapshot} {result : Except ActorError Snapshot}

/-! ### First snapshots -/

theorem Logic.initialSnapshot_thrives {input : Json}
    (h : logic.initialSnapshot spawn scope input = (scope', result)) (hspawn : Spawner.Sound spawn)
    (hsound : scope.system.Sound) : scope.system.Thrives scope'.system := by
  cases logic with
  | machine d implementations =>
      cases h
      exact Machine.initialState_thrives (m := { definition := d, implementations, spawn }) rfl
        hspawn hsound
  | reducer initial next =>
      cases h
      exact hsound.thrives
  | task run =>
      cases h
      exact hsound.thrives

/-- The snapshot that a behaviour starts with suits it. -/
theorem Logic.initialSnapshot_spec {input : Json}
    (h : logic.initialSnapshot spawn scope input = (scope', .ok next))
    (hspawn : Spawner.Sound spawn) (hsound : scope.system.Sound) (hscope : scope.Belongs parent) :
    next.Suits scope'.system parent logic := by
  cases logic with
  | machine d implementations =>
      obtain ⟨hscope', hresult⟩ := Prod.mk.inj h
      obtain ⟨s, hs, rfl⟩ := Except.map_eq_ok.mp hresult
      exact Machine.initialState_spec (m := { definition := d, implementations, spawn })
        (Prod.ext hscope' hs) hspawn hsound hscope
  | reducer initial next =>
      cases h
      exact trivial
  | task run =>
      cases h
      exact trivial

theorem Logic.restore_thrives {stored : PersistedSnapshot}
    (h : logic.restore spawn scope stored = (scope', result)) (hspawn : Spawner.Sound spawn)
    (hsound : scope.system.Sound) : scope.system.Thrives scope'.system := by
  cases logic with
  | machine d implementations =>
      cases h
      exact Machine.restore_thrives (m := { definition := d, implementations, spawn }) rfl
        hspawn hsound
  | reducer initial next =>
      cases h
      exact hsound.thrives
  | task run =>
      cases h
      exact hsound.thrives

/-- The snapshot that a behaviour goes on from suits it. -/
theorem Logic.restore_spec {stored : PersistedSnapshot}
    (h : logic.restore spawn scope stored = (scope', .ok next)) (hspawn : Spawner.Sound spawn)
    (hsound : scope.system.Sound) (hscope : scope.Belongs parent) :
    next.Suits scope'.system parent logic := by
  cases logic with
  | machine d implementations =>
      obtain ⟨hscope', hresult⟩ := Prod.mk.inj h
      obtain ⟨s, hs, rfl⟩ := Except.map_eq_ok.mp hresult
      exact Machine.restore_spec (m := { definition := d, implementations, spawn })
        (Prod.ext hscope' hs) hspawn hsound hscope
  | reducer initial next =>
      cases h
      exact trivial
  | task run =>
      cases h
      exact trivial

/-! ### Events -/

theorem Logic.transition_thrives {event : Event}
    (h : logic.transition spawn scope s event = (scope', result)) (hspawn : Spawner.Sound spawn)
    (hsound : scope.system.Sound) : scope.system.Thrives scope'.system := by
  cases logic with
  | machine d implementations =>
      cases s with
      | machine current =>
          cases h
          exact Machine.transition_thrives (m := { definition := d, implementations, spawn }) rfl
            hspawn hsound
      | value v =>
          cases h
          exact hsound.thrives
  | reducer initial next =>
      cases s with
      | machine current =>
          cases h
          exact hsound.thrives
      | value v =>
          unfold Logic.transition at h
          simp only at h
          split at h
          · cases h
            exact scope.thrives_absorb hsound _
          · cases h
            exact hsound.thrives
  | task run =>
      cases h
      exact hsound.thrives

/-- The snapshot after an event suits the behaviour, and the children are accounted for. -/
theorem Logic.transition_spec {event : Event}
    (h : logic.transition spawn scope s event = (scope', .ok next)) (hspawn : Spawner.Sound spawn)
    (hsound : scope.system.Sound) (hscope : scope.Belongs parent)
    (hs : s.Suits scope.system parent logic) : next.Suits scope'.system parent logic ∧
      Lineage scope.system scope'.system scope.session scope'.effects (some event) s.children
        next.children := by
  cases logic with
  | machine d implementations =>
      cases s with
      | machine current =>
          obtain ⟨hscope', hresult⟩ := Prod.mk.inj h
          obtain ⟨s, hok, rfl⟩ := Except.map_eq_ok.mp hresult
          exact Machine.transition_spec (m := { definition := d, implementations, spawn })
            (Prod.ext hscope' hok) hspawn hsound hscope hs
      | value v => cases h
  | reducer initial next =>
      cases s with
      | machine current => cases h
      | value v =>
          unfold Logic.transition at h
          simp only at h
          split at h
          · cases h
            exact ⟨trivial, .nil⟩
          · cases h
            exact ⟨hs, .refl _ _ _ _ _⟩
  | task run =>
      cases h
      exact ⟨hs, .refl _ _ _ _ _⟩

/-! ### Starts and stops -/

theorem Logic.start_thrives {result : Except ActorError (Option Snapshot)}
    (h : logic.start scope s = (scope', result)) (hsound : scope.system.Sound) :
    scope.system.Thrives scope'.system := by
  cases logic with
  | machine d implementations =>
      cases h
      exact hsound.thrives
  | reducer initial next =>
      cases h
      exact hsound.thrives
  | task run =>
      cases s with
      | machine current =>
          cases h
          exact hsound.thrives
      | value v =>
          unfold Logic.start at h
          simp only at h
          split at h
          · cases h
            exact scope.thrives_absorb hsound _
          · cases h
            exact hsound.thrives

/-- The snapshot after the start suits the behaviour, and the children are still the same. -/
theorem Logic.start_spec {next : Option Snapshot} (h : logic.start scope s = (scope', .ok next))
    (hs : s.Suits scope.system parent logic) :
    (next.getD s).Suits scope'.system parent logic ∧ (next.getD s).children = s.children := by
  cases logic with
  | machine d implementations =>
      cases h
      exact ⟨hs, rfl⟩
  | reducer initial next =>
      cases h
      exact ⟨hs, rfl⟩
  | task run =>
      cases s with
      | machine current => cases h
      | value v =>
          unfold Logic.start at h
          simp only at h
          split at h
          · cases h
            exact ⟨trivial, rfl⟩
          · cases h
            exact ⟨hs, rfl⟩

theorem Logic.stop_thrives (h : logic.stop spawn scope s = (scope', result))
    (hspawn : Spawner.Sound spawn) (hsound : scope.system.Sound) :
    scope.system.Thrives scope'.system := by
  cases logic with
  | machine d implementations =>
      cases s with
      | machine current =>
          cases h
          exact Machine.stop_thrives (m := { definition := d, implementations, spawn }) rfl
            hspawn hsound
      | value v =>
          cases h
          exact hsound.thrives
  | reducer initial next =>
      cases h
      exact hsound.thrives
  | task run =>
      cases h
      exact hsound.thrives

/-- The snapshot after a stop suits the behaviour, and the children are accounted for. -/
theorem Logic.stop_spec (h : logic.stop spawn scope s = (scope', .ok next))
    (hspawn : Spawner.Sound spawn) (hsound : scope.system.Sound) (hscope : scope.Belongs parent)
    (hs : s.Suits scope.system parent logic) : next.Suits scope'.system parent logic ∧
      Lineage scope.system scope'.system scope.session scope'.effects none s.children
        next.children := by
  cases logic with
  | machine d implementations =>
      cases s with
      | machine current =>
          obtain ⟨hscope', hresult⟩ := Prod.mk.inj h
          obtain ⟨s, hok, rfl⟩ := Except.map_eq_ok.mp hresult
          exact Machine.stop_spec (m := { definition := d, implementations, spawn })
            (Prod.ext hscope' hok) hspawn hsound hscope hs
      | value v => cases h
  | reducer initial next =>
      cases h
      rw [Snapshot.children_stopped]
      exact ⟨hs.stopped, .refl _ _ _ _ _⟩
  | task run =>
      cases h
      rw [Snapshot.children_stopped]
      exact ⟨hs.stopped, .refl _ _ _ _ _⟩

/-- A behaviour that has stopped says so. -/
theorem Logic.status_of_stop (h : logic.stop spawn scope s = (scope', .ok next)) :
    next.status = .stopped := by
  cases logic with
  | machine d implementations =>
      cases s with
      | machine current =>
          obtain ⟨s, hresult, rfl⟩ := Except.map_eq_ok.mp (Prod.mk.inj h).2
          exact Machine.status_of_stop (Prod.ext rfl hresult)
      | value v => cases h
  | reducer initial next =>
      cases h
      exact Snapshot.status_stopped s
  | task run =>
      cases h
      exact Snapshot.status_stopped s

end Behaviours

/-! ## Making -/

/-- The scope in which the first snapshot of an actor is made. -/
def ActorSpec.scope (spec : ActorSpec) (sys : System) : Scope where
  system := sys.newSession.1
  session := sys.newSession.2
  id := spec.id.getD sys.newSession.2.text
  parent := spec.parent

/-- The first snapshot of an actor. -/
def ActorSpec.first (spec : ActorSpec) (spawn : Spawner) (scope : Scope) (logic : Logic) :
    Scope × Except ActorError Snapshot :=
  match spec.snapshot with
  | some stored => logic.restore spawn scope stored
  | none => logic.initialSnapshot spawn scope spec.input

/-- An actor that has just been made. -/
def ActorSpec.actor (spec : ActorSpec) (sys : System) (logic : Logic) (scope : Scope)
    (snapshot : Snapshot) : Actor where
  id := spec.id.getD sys.newSession.2.text
  session := sys.newSession.2
  parent := spec.parent
  source := spec.source
  systemId := spec.systemId
  logic
  mailbox := {}
  snapshot
  observers := []
  pending := scope.effects

section Make

variable {depth : Nat} {sys : System} {logic : Logic} {spec : ActorSpec} {scope : Scope}

theorem make_error {e : ActorError}
    (h : spec.first (make depth) (spec.scope sys) logic = (scope, .error e)) :
    make (depth + 1) sys logic spec = (scope.system, .error e) := by
  unfold ActorSpec.first ActorSpec.scope at h
  unfold make
  cases hspec : spec.snapshot <;> rw [hspec] at h <;> simp only [h]

theorem make_ok {snapshot : Snapshot}
    (h : spec.first (make depth) (spec.scope sys) logic = (scope, .ok snapshot)) :
    make (depth + 1) sys logic spec =
      (scope.system.register (spec.actor sys logic scope snapshot), .ok sys.newSession.2) := by
  unfold ActorSpec.first ActorSpec.scope at h
  unfold make ActorSpec.actor
  cases hspec : spec.snapshot <;> rw [hspec] at h <;> simp only [h]

end Make

section First

variable {spec : ActorSpec} {spawn : Spawner} {scope scope' : Scope} {logic : Logic}

theorem ActorSpec.first_thrives {result : Except ActorError Snapshot}
    (h : spec.first spawn scope logic = (scope', result)) (hspawn : Spawner.Sound spawn)
    (hsound : scope.system.Sound) : scope.system.Thrives scope'.system := by
  unfold first at h
  split at h
  · exact Logic.restore_thrives h hspawn hsound
  · exact Logic.initialSnapshot_thrives h hspawn hsound

/-- The first snapshot suits the behaviour, wherever it comes from. -/
theorem ActorSpec.first_spec {snapshot : Snapshot} {parent : Option Session}
    (h : spec.first spawn scope logic = (scope', .ok snapshot)) (hspawn : Spawner.Sound spawn)
    (hsound : scope.system.Sound) (hscope : scope.Belongs parent) :
    snapshot.Suits scope'.system parent logic := by
  unfold first at h
  split at h
  · exact Logic.restore_spec h hspawn hsound hscope
  · exact Logic.initialSnapshot_spec h hspawn hsound hscope

end First

/-- The scope of an actor that is being made is its own. -/
theorem ActorSpec.belongs_scope (spec : ActorSpec) (sys : System) :
    (spec.scope sys).Belongs (some sys.newSession.2) := by
  intro p hp
  cases hp
  exact ⟨rfl, Nat.lt_succ_self _⟩

theorem System.Sound.newSession {sys : System} (h : sys.Sound) : sys.newSession.1.Sound where
  keyed := h.keyed
  fresh s a ha := Nat.lt_succ_of_lt (h.fresh s a ha)
  suits s a ha := (h.suits s a ha).mono ⟨Nat.le_succ _, fun _ a ha => ⟨a, ha, rfl⟩⟩

/-- A new actor is registered under a session that nobody else has got. -/
theorem System.kept_register {sys sys' : System} (hsound : sys.Sound)
    (h : sys.newSession.1.Thrives sys') {a : Actor} (hsession : a.session = sys.newSession.2)
    {s : Session} {b : Actor} (hb : sys'.actor? s = some b) :
    (sys'.register a).actor? s = some b := by
  have hne : a.session ≠ s := by
    intro heq
    have hnumber : s.number = sys.nextSession := by rw [← heq, hsession]; rfl
    rcases h.grown.added s b hb with hb | ⟨hlate, -⟩
    · exact absurd (hsound.fresh s b hb) (by omega)
    · have hlate : sys.nextSession + 1 ≤ s.number := hlate
      omega
  rw [actor?_register, if_neg hne, hb]

theorem System.thrives_register {sys sys' : System} (hsound : sys.Sound)
    (h : sys.newSession.1.Thrives sys') {a : Actor} (hsession : a.session = sys.newSession.2)
    (hmail : a.mailbox = {}) (hobservers : a.observers = [])
    (hsuits : a.snapshot.Suits sys' (some a.session) a.logic) : sys.Thrives (sys'.register a) := by
  have hnumber : a.session.number = sys.nextSession := by rw [hsession]; rfl
  have hle : sys.nextSession + 1 ≤ sys'.nextSession := h.grown.next
  have hkept : ∀ s b, sys'.actor? s = some b → (sys'.register a).actor? s = some b :=
    fun s b hb => kept_register hsound h hsession hb
  have hfollows : sys'.Follows (sys'.register a) :=
    ⟨Nat.le_of_eq (nextSession_register _ _).symm, fun s b hb => ⟨b, hkept s b hb, rfl⟩⟩
  -- whoever is found afterwards is the new actor or was there before
  have hcases : ∀ {s b}, (sys'.register a).actor? s = some b →
      a.session = s ∧ b = a ∨ sys'.actor? s = some b := by
    intro s b hb
    rw [actor?_register] at hb
    split at hb
    · rename_i heq
      cases hb
      exact .inl ⟨heq, rfl⟩
    · exact .inr hb
  refine ⟨⟨?_, fun s b hb => hkept s b (h.grown.kept s b hb), fun s b hb => ?_, fun s b hb => ?_,
    fun n hn => ?_, fun t ht => ?_⟩, ⟨fun s b hb => ?_, fun s b hb => ?_, fun s b hb => ?_⟩⟩
  · rw [nextSession_register]
    omega
  · rcases hcases hb with ⟨rfl, rfl⟩ | hb
    · exact .inr ⟨Nat.le_of_eq hnumber.symm, hmail⟩
    · rcases h.grown.added s b hb with hb | ⟨hlate, hmail'⟩
      · exact .inl hb
      · exact .inr ⟨Nat.le_of_succ_le hlate, hmail'⟩
  · rcases hcases hb with ⟨-, rfl⟩ | hb
    · exact .inr hobservers
    · exact h.grown.unobserved s b hb
  · rw [registered_register, NodeSet.mem_insert] at hn
    rcases hn with rfl | hn
    · exact .inr (Nat.le_of_eq hnumber.symm)
    · rcases h.grown.registered n hn with hn | hlate
      · exact .inl hn
      · exact .inr (Nat.le_of_succ_le hlate)
  · rw [scheduler_register] at ht
    exact h.grown.timers t ht
  · rcases hcases hb with ⟨rfl, rfl⟩ | hb
    · rfl
    · exact h.sound.keyed s b hb
  · rw [nextSession_register]
    rcases hcases hb with ⟨rfl, rfl⟩ | hb
    · omega
    · exact h.sound.fresh s b hb
  · rcases hcases hb with ⟨rfl, rfl⟩ | hb
    · exact hsuits.mono hfollows
    · exact (h.sound.suits s b hb).mono hfollows

/-- To make an actor keeps a system sound, however deep behaviours may be nested. -/
theorem sound_make : ∀ depth, Spawner.Sound (make depth)
  | 0 => by
      intro sys sys' logic spec result hsound h
      cases h
      exact ⟨hsound.thrives, fun child hchild => by cases hchild⟩
  | depth + 1 => by
      intro sys sys' logic spec result hsound h
      cases hfirst : spec.first (make depth) (spec.scope sys) logic with
      | mk scope' made =>
          have hthrives := ActorSpec.first_thrives hfirst (sound_make depth) hsound.newSession
          cases made with
          | error e =>
              cases (make_error hfirst).symm.trans h
              -- the session is used up even if nobody is made
              have hgrown : sys.Grown sys.newSession.1 :=
                ⟨Nat.le_succ _, fun _ _ ha => ha, fun _ _ ha => .inl ha, fun _ _ ha => .inl ha,
                  fun _ hn => .inl hn, fun _ ht => ht⟩
              exact ⟨⟨hgrown.trans hthrives.grown, hthrives.sound⟩,
                fun child hchild => by cases hchild⟩
          | ok snapshot =>
              cases (make_ok hfirst).symm.trans h
              have hsuits := ActorSpec.first_spec hfirst (sound_make depth) hsound.newSession
                (spec.belongs_scope sys)
              refine ⟨System.thrives_register hsound hthrives rfl rfl rfl hsuits,
                fun child hchild => ?_⟩
              cases hchild
              refine ⟨Nat.le_refl _, spec.actor sys logic scope' snapshot, ?_, rfl, rfl, rfl, rfl,
                fun id hid => ?_⟩
              · rw [System.actor?_register]
                exact if_pos rfl
              · rw [ActorSpec.actor, hid]
                rfl

/-- To make an actor keeps a system sound. -/
theorem sound_spawn : Spawner.Sound spawn := by
  intro sys sys' logic spec result hsound h
  exact sound_make _ hsound h

end Statechart
