import Statechart.Machine
import Statechart.Proofs.Frame
import Statechart.Proofs.Population

/-!
# Children of machines

Machines make actors while they take steps, and let them go. Whatever a step does, the system stays
sound and the snapshot suits the machine; and a child only leaves when its stop is asked for, when
it has reported its end, or when another actor is made in its place (`Lineage`).
-/

namespace Statechart

namespace System

variable {sys sys' sys'' : System}

/-- A sound system that has come of another one by making actors. -/
structure Thrives (sys sys' : System) : Prop where
  grown : sys.Grown sys'
  sound : sys'.Sound

theorem Sound.thrives (h : sys.Sound) : sys.Thrives sys := ⟨.refl sys, h⟩

theorem Thrives.trans (h : sys.Thrives sys') (h' : sys'.Thrives sys'') : sys.Thrives sys'' :=
  ⟨h.grown.trans h'.grown, h'.sound⟩

theorem Thrives.quiet (h : sys.Thrives sys') (hquiet : sys'.Quiet sys'') : sys.Thrives sys'' :=
  ⟨h.grown.trans hquiet.grown, h.sound.quiet hquiet⟩

/-- By now a parent has got an actor under an id that was not there before. -/
def Replaces (sys sys' : System) (parent : Session) (id : String) : Prop :=
  ∃ b a, sys'.actor? b = some a ∧ sys.nextSession ≤ b.number ∧ a.parent = some parent ∧ a.id = id

theorem Replaces.mono {parent : Session} {id : String} (h : sys.Replaces sys' parent id)
    (hsys : sys'.Follows sys'') : sys.Replaces sys'' parent id := by
  obtain ⟨b, a, ha, hlate, hparent, hid⟩ := h
  obtain ⟨a', ha', hbecomes⟩ := hsys.actor b a ha
  refine ⟨b, a', ha', hlate, ?_, ?_⟩ <;> rw [hbecomes] <;> assumption

/-- Where no actor has been made, none is in anyone's place. -/
theorem not_replaces (hlt : ∀ entry ∈ sys'.actors, entry.1 < sys.nextSession) (parent : Session)
    (id : String) : ¬sys.Replaces sys' parent id := by
  rintro ⟨b, a, hb, hlate, -⟩
  have hnumber : b.number < sys.nextSession := hlt _ (SortedMap.mem_of_find? hb)
  omega

/-- What has been made later has been made by now. -/
theorem Replaces.since {parent : Session} {id : String} (h : sys'.Replaces sys'' parent id)
    (hnext : sys.nextSession ≤ sys'.nextSession) : sys.Replaces sys'' parent id := by
  obtain ⟨b, a, ha, hlate, hmade⟩ := h
  exact ⟨b, a, ha, Nat.le_trans hnext hlate, hmade⟩

end System

/-- An event that reports the end of the child with an id. -/
def Event.Reports (event : Event) (c : String × Session) : Prop :=
  event.completedChild? = some c.1 ∧ event.origin = some c.2.text

instance (event : Event) (c : String × Session) : Decidable (event.Reports c) :=
  inferInstanceAs (Decidable (_ ∧ _))

/-- How the children of an actor change in a step that begins in `sys`. A child stays unless its
stop is asked for, the external event reports its end, or another actor is made in its place; and
only actors that are made meanwhile become children. -/
structure Lineage (sys sys' : System) (parent : Session) (effects : List Effect)
    (external : Option Event) (old new : List (String × Session)) : Prop where
  kept : ∀ c ∈ old, c ∈ new ∨ .stop c.2 ∈ effects ∨
    (∃ event, external = some event ∧ event.Reports c) ∨
    sys.Replaces sys' parent c.1
  added : ∀ c ∈ new, c ∈ old ∨ sys.nextSession ≤ c.2.number

theorem Lineage.refl (sys : System) (parent : Session) (effects : List Effect)
    (external : Option Event) (children : List (String × Session)) :
    Lineage sys sys parent effects external children children :=
  ⟨fun _ hc => .inl hc, fun _ hc => .inl hc⟩

theorem Lineage.nil {sys sys' : System} {parent : Session} {effects : List Effect}
    {external : Option Event} : Lineage sys sys' parent effects external [] [] :=
  ⟨fun _ hc => absurd hc List.not_mem_nil, fun _ hc => absurd hc List.not_mem_nil⟩

/-- Later on the children of a step are still accounted for. -/
theorem Lineage.mono {sys sys' sys'' : System} {parent : Session} {effects effects' : List Effect}
    {external : Option Event} {old new : List (String × Session)}
    (h : Lineage sys sys' parent effects external old new) (hsys : sys'.Follows sys'')
    (heffects : effects ⊆ effects') : Lineage sys sys'' parent effects' external old new where
  kept c hc := by
    rcases h.kept c hc with hnew | hstop | hreport | hreplaced
    · exact .inl hnew
    · exact .inr (.inl (heffects hstop))
    · exact .inr (.inr (.inl hreport))
    · exact .inr (.inr (.inr (hreplaced.mono hsys)))
  added := h.added

/-- A child leaves for one of the reasons that there are. -/
theorem Lineage.leave {sys sys' : System} {parent : Session} {effects : List Effect}
    {external : Option Event} {old new new' : List (String × Session)}
    (h : Lineage sys sys' parent effects external old new) (hsub : new' ⊆ new)
    (hleft : ∀ c ∈ new, c ∉ new' → .stop c.2 ∈ effects ∨
      (∃ event, external = some event ∧ event.Reports c) ∨ sys.Replaces sys' parent c.1) :
    Lineage sys sys' parent effects external old new' where
  kept c hc := by
    rcases h.kept c hc with hnew | hleave
    · by_cases hc' : c ∈ new'
      · exact .inl hc'
      · exact .inr (hleft c hnew hc')
    · exact .inr hleave
  added c hc := h.added c (hsub hc)

/-! ## Making what is asked for -/

/-- An actor that was made as it was asked for. -/
structure ActorSpec.Makes (spec : ActorSpec) (logic : Logic) (a : Actor) : Prop where
  logic : a.logic = logic
  source : a.source = spec.source
  systemId : a.systemId = spec.systemId
  parent : a.parent = spec.parent
  id : ∀ id, spec.id = some id → a.id = id

/-- A way to make actors that keeps systems sound and makes what it is asked for. -/
def Spawner.Sound (spawn : Spawner) : Prop :=
  ∀ ⦃sys sys' : System⦄ ⦃logic : Logic⦄ ⦃spec : ActorSpec⦄ ⦃result : Except ActorError Session⦄,
    sys.Sound → spawn sys logic spec = (sys', result) →
      sys.Thrives sys' ∧ ∀ child, result = .ok child → sys.nextSession ≤ child.number ∧
        ∃ a, sys'.actor? child = some a ∧ spec.Makes logic a

/-- A scope is that of an actor, if one is given. -/
def Scope.Belongs (scope : Scope) (parent : Option Session) : Prop :=
  ∀ p, parent = some p → p = scope.session ∧ p.number < scope.system.nextSession

theorem Scope.belongs_none (scope : Scope) : scope.Belongs none := nofun

theorem Scope.Belongs.mono {scope scope' : Scope} {parent : Option Session}
    (h : scope.Belongs parent) (hsession : scope'.session = scope.session)
    (hnext : scope.system.nextSession ≤ scope'.system.nextSession) : scope'.Belongs parent := by
  intro p hp
  obtain ⟨heq, hlt⟩ := h p hp
  exact ⟨heq.trans hsession.symm, Nat.lt_of_lt_of_le hlt hnext⟩

/-! ## Steps -/

/-- What suits a machine while a step is computed. State value and tags only follow at its end. -/
structure Work.Suits (w : Work) (m : Machine) (parent : Option Session) : Prop where
  definition : w.snapshot.definition = m.definition
  sorted : SortedMap.Sorted w.snapshot.history
  existing : m.definition.WellFormed →
    m.definition.Existing w.snapshot.config ∧ m.definition.Known w.snapshot.history
  offspring : Offspring w.scope.system parent m.implementations w.snapshot.children
  belongs : w.scope.Belongs parent

/-- What has become by now of the children that a step has begun with. -/
structure Work.Tracks (w : Work) (sys : System) (owner : Session) (external : Option Event)
    (old : List (String × Session)) : Prop where
  lineage : Lineage sys w.scope.system owner w.scope.effects external old w.snapshot.children
  session : w.scope.session = owner

namespace Machine

open StepM

variable {m : Machine} {sys : System} {w w' : Work} {parent : Option Session} {owner : Session}
  {external : Option Event} {old : List (String × Session)}

theorem Acts.thrives (hspawn : Spawner.Sound m.spawn) (h : m.Acts w w')
    (hw : sys.Thrives w.scope.system) : sys.Thrives w'.scope.system := by
  have hsystem : sys.Thrives w.system := hw.quiet (.of_eq rfl rfl rfl rfl)
  cases h with
  | noted n => exact hw.quiet (.of_eq rfl rfl rfl rfl)
  | spawned logic spec system child _ _ _ hmade =>
      exact (hsystem.trans (hspawn hsystem.sound hmade).1).quiet (.of_eq rfl rfl rfl rfl)
  | spawnFailed logic spec system e _ _ hmade =>
      exact (hsystem.trans (hspawn hsystem.sound hmade).1).quiet (.of_eq rfl rfl rfl rfl)
  | _ => exact hw

/-- A step only makes actors. -/
theorem Proceeds.thrives (hspawn : Spawner.Sound m.spawn) (h : m.Proceeds external w w')
    (hw : sys.Thrives w.scope.system) : sys.Thrives w'.scope.system := by
  cases h with
  | acted h => exact h.thrives hspawn hw
  | _ => exact hw

theorem Acts.session (h : m.Acts w w') : w'.scope.session = w.scope.session := by
  cases h <;> rfl

theorem Proceeds.session (h : m.Proceeds external w w') :
    w'.scope.session = w.scope.session := by
  cases h with
  | acted h => exact h.session
  | _ => rfl

/-- Children that leave do not matter to the others. -/
theorem offspring_erase {children : List (String × Session)}
    (h : Offspring sys parent m.implementations children) (id : String) :
    Offspring sys parent m.implementations (SortedMap.erase id children) :=
  ⟨h.sorted.erase id, fun c hc => h.made c (SortedMap.mem_erase.mp hc).1⟩

/-- A new child behaves as its key says. -/
theorem offspring_insert {children : List (String × Session)}
    (h : Offspring sys parent m.implementations children) {child : Session} {a : Actor}
    (ha : sys.actor? child = some a)
    (hparent : ∀ p, parent = some p → p.number < child.number ∧ a.parent = some p)
    (hsource : ∀ key, a.source = some key → m.implementations.actors key = some a.logic) :
    Offspring sys parent m.implementations (SortedMap.insert a.id child children) := by
  refine ⟨h.sorted.insert a.id child, fun c hc => ?_⟩
  rcases SortedMap.mem_insert hc with rfl | hc
  · exact ⟨a, ha, rfl, hparent, hsource⟩
  · exact h.made c hc

theorem Acts.suits (hspawn : Spawner.Sound m.spawn) (h : m.Acts w w')
    (hsound : w.scope.system.Sound) (hw : w.Suits m parent) : w'.Suits m parent := by
  have hgrown := (h.thrives hspawn hsound.thrives).grown
  have hbelongs : w'.scope.Belongs parent := hw.belongs.mono h.session hgrown.next
  have hsystem : w.system.Sound := hsound.quiet (.of_eq rfl rfl rfl rfl)
  have hold : Offspring w'.scope.system parent m.implementations w.snapshot.children :=
    hw.offspring.mono hgrown.follows
  cases h with
  | spawned logic spec system child hparent _ hsource hmade =>
      obtain ⟨-, hchild⟩ := hspawn hsystem hmade
      obtain ⟨hlate, a, ha, hmakes⟩ := hchild child rfl
      have hfamily : ∀ p, parent = some p → p.number < child.number ∧ a.parent = some p := by
        intro p hp
        obtain ⟨rfl, hlt⟩ := hw.belongs p hp
        exact ⟨Nat.lt_of_lt_of_le hlt hlate, hmakes.parent.trans hparent⟩
      have hbehaves : ∀ key, a.source = some key → m.implementations.actors key = some a.logic := by
        intro key hk
        rw [hmakes.logic]
        exact hsource key (hmakes.source ▸ hk)
      have hnew := offspring_insert hold ha hfamily hbehaves
      refine ⟨hw.definition, hw.sorted, hw.existing, ?_, hbelongs⟩
      show Offspring _ _ _ (SortedMap.insert (system.actor child).id child _)
      rw [System.actor_eq ha]
      exact hnew
  | stopped id child _ =>
      exact ⟨hw.definition, hw.sorted, hw.existing, offspring_erase hold id, hbelongs⟩
  | _ => exact ⟨hw.definition, hw.sorted, hw.existing, hold, hbelongs⟩

theorem existing_of_enterable (wf : m.definition.WellFormed) {history : HistoryValue}
    (hhist : m.definition.Known history) {state : Nat} (h : m.Enterable history state) :
    state < m.definition.nodes.size := by
  rcases h with h | ⟨ts, h⟩
  · exact wf.existing_initialEntrySet state h
  · refine wf.existing_entrySet hhist (fun t ht => ?_) state h
    obtain ⟨k, -, rfl⟩ := List.mem_map.mp (List.mem_filter.mp ht).1
    exact wf.targets_lt k

/-- A step keeps what suits the machine. -/
theorem Proceeds.suits (hspawn : Spawner.Sound m.spawn) (h : m.Proceeds external w w')
    (hsound : w.scope.system.Sound) (hw : w.Suits m parent) : w'.Suits m parent := by
  cases h with
  | acted h => exact h.suits hspawn hsound hw
  | exited state =>
      exact { hw with existing := fun wf => ⟨(hw.existing wf).1.erase state, (hw.existing wf).2⟩ }
  | remembered exiting =>
      exact { hw with
        sorted := Definition.sorted_recordHistory hw.sorted exiting
        existing := fun wf => ⟨(hw.existing wf).1,
          wf.known_recordHistory (hw.existing wf).1 (hw.existing wf).2 exiting⟩ }
  | entered state henter =>
      exact { hw with
        existing := fun wf => ⟨(hw.existing wf).1.insert
          (existing_of_enterable wf (hw.existing wf).2 henter), (hw.existing wf).2⟩ }
  | released event id child _ _ _ _ =>
      exact { hw with offspring := offspring_erase hw.offspring id }
  | _ => exact ⟨hw.definition, hw.sorted, hw.existing, hw.offspring, hw.belongs⟩

/-- Actions let a child go when its stop is asked for, or for another one. -/
theorem Acts.tracks (hspawn : Spawner.Sound m.spawn) (h : m.Acts w w')
    (hthrives : sys.Thrives w.scope.system)
    (hsorted : SortedMap.Sorted w.snapshot.children) (hw : w.Tracks sys owner external old) :
    w'.Tracks sys owner external old := by
  have hfollows := (h.thrives hspawn hthrives.sound.thrives).grown.follows
  have hsession := h.session.trans hw.session
  have hsystem : w.system.Sound := hthrives.sound.quiet (.of_eq rfl rfl rfl rfl)
  cases h with
  | spawned logic spec system child hparent _ _ hmade =>
      obtain ⟨-, hchild⟩ := hspawn hsystem hmade
      obtain ⟨hlate, a, ha, hmakes⟩ := hchild child rfl
      have hlate : sys.nextSession ≤ child.number := Nat.le_trans hthrives.grown.next hlate
      have hmono := hw.lineage.mono hfollows (List.subset_append_left _ [.start child])
      refine ⟨⟨fun c hc => ?_, fun c hc => ?_⟩, hsession⟩
      · rcases hmono.kept c hc with hnow | hleave
        · by_cases hid : c.1 = (system.actor child).id
          · refine .inr (.inr (.inr ⟨child, a, ha, hlate, ?_, ?_⟩))
            · rw [hmakes.parent, hparent, hw.session]
            · rw [hid, System.actor_eq ha]
          · exact .inl (hsorted.mem_insert_of_ne hnow hid)
        · exact .inr hleave
      · rcases SortedMap.mem_insert hc with rfl | hc
        · exact .inr hlate
        · exact hmono.added c hc
  | stopped id child hchild =>
      have hmono := hw.lineage.mono hfollows (List.subset_append_left _ [.stop child])
      refine ⟨hmono.leave (fun c hc => (SortedMap.mem_erase.mp hc).1) fun c hc hleft => ?_, hsession⟩
      have hid : c.1 = id := by
        by_contra hne
        exact hleft (SortedMap.mem_erase.mpr ⟨hc, hne⟩)
      -- the entry that went is that of the child whose stop is asked for
      have hvalue : c.2 = child := hsorted.value_eq hc (hid ▸ hchild)
      exact .inl (List.mem_append_right _ (hvalue ▸ List.mem_singleton_self _))
  | asked effect _ => exact ⟨hw.lineage.mono hfollows (List.subset_append_left _ _), hsession⟩
  | _ => exact ⟨hw.lineage.mono hfollows (List.Subset.refl _), hsession⟩

/-- A step lets a child go also when the external event reports its end. -/
theorem Proceeds.tracks (hspawn : Spawner.Sound m.spawn) (h : m.Proceeds external w w')
    (hthrives : sys.Thrives w.scope.system)
    (hsorted : SortedMap.Sorted w.snapshot.children) (hw : w.Tracks sys owner external old) :
    w'.Tracks sys owner external old := by
  cases h with
  | acted h => exact h.tracks hspawn hthrives hsorted hw
  | released event id child hexternal hid hchild horigin =>
      refine ⟨hw.lineage.leave (fun c hc => (SortedMap.mem_erase.mp hc).1) fun c hc hleft => ?_,
        hw.session⟩
      have hkey : c.1 = id := by
        by_contra hne
        exact hleft (SortedMap.mem_erase.mpr ⟨hc, hne⟩)
      have hvalue : c.2 = child := hsorted.value_eq hc (hkey ▸ hchild)
      exact .inr (.inl ⟨event, hexternal, hkey ▸ hid, hvalue ▸ horigin⟩)
  | _ => exact ⟨hw.lineage, hw.session⟩


/-! ## Machines as functions -/

/-- A part of a step that only proceeds makes actors at most, abandoned or not. -/
theorem after_thrives {x : StepM Unit} (hx : Runs (m.Proceeds external) x)
    (hspawn : Spawner.Sound m.spawn) (hw : sys.Thrives w.scope.system) :
    sys.Thrives (x.after w).scope.system :=
  ((hx.runsFrom fun _ _ h hw => h.thrives hspawn hw) w hw).2

/-- What a part of a step that only proceeds ends in. -/
theorem after_spec {x : StepM Unit} (hx : Runs (m.Proceeds external) x)
    (hspawn : Spawner.Sound m.spawn) (hw : sys.Thrives w.scope.system) (hsuits : w.Suits m parent)
    (htracks : w.Tracks sys owner external old) :
    (x.after w).Suits m parent ∧ (x.after w).Tracks sys owner external old := by
  have hall := hx.runsFrom
    (p := fun w => sys.Thrives w.scope.system ∧ w.Suits m parent ∧ w.Tracks sys owner external old)
    fun w w' h hw => ⟨h.thrives hspawn hw.1, h.suits hspawn hw.1.sound hw.2.1,
      h.tracks hspawn hw.1 hw.2.1.offspring.sorted hw.2.2⟩
  exact (hall w ⟨hw, hsuits, htracks⟩).2.2

theorem suits_finish (hw : w.Suits m parent) (before : Option MachineSnapshot) :
    (finish before w.snapshot).Suits w.scope.system parent m.definition m.implementations where
  definition := hw.definition
  value := by
    show w.snapshot.definition.stateValue w.snapshot.config = _
    rw [hw.definition]
    rfl
  tags := by
    show w.snapshot.definition.tags w.snapshot.config = _
    rw [hw.definition]
    rfl
  sorted := hw.sorted
  existing := hw.existing
  offspring := hw.offspring

variable {scope scope' : Scope} {s next : MachineSnapshot} {pins : List Session}
  {before : Option MachineSnapshot} {result : Except ActorError MachineSnapshot}

theorem suits_begin (hscope : scope.Belongs parent)
    (hs : s.Suits scope.system parent m.definition m.implementations) :
    (begin scope s).Suits m parent :=
  ⟨hs.definition, hs.sorted, hs.existing, hs.offspring, hscope⟩

/-- A step begins with the children of its snapshot kept alive. -/
theorem quiet_pinning (sys : System) (sessions : List Session) :
    sys.Quiet (sys.pinning sessions) := .of_eq rfl rfl rfl rfl

/-- What comes out of a step is the state that it ends in. -/
theorem outcome_cases {r : EStateM.Result ActorError Work Unit}
    (h : outcome pins before r = (scope', result)) : ∃ w, scope' = w.scope.unpin pins ∧
      ((∃ e, r = .error e w ∧ result = .error e) ∨
        (r = .ok () w ∧ result = .ok (finish before w.snapshot))) := by
  cases r with
  | ok _ w =>
      cases h
      exact ⟨w, rfl, .inr ⟨rfl, rfl⟩⟩
  | error e w =>
      cases h
      exact ⟨w, rfl, .inl ⟨e, rfl, rfl⟩⟩

theorem outcome_thrives {x : StepM Unit} (h : outcome pins before (runStep scope s x) =
    (scope', result)) (hx : Runs (m.Proceeds external) x) (hspawn : Spawner.Sound m.spawn)
    (hsound : scope.system.Sound) : scope.system.Thrives scope'.system := by
  have hthrives := after_thrives hx hspawn
    (w := begin { scope with system := scope.system.pinning (s.children.map Prod.snd) } s)
    (hsound.thrives.quiet (quiet_pinning _ _))
  unfold StepM.after at hthrives
  obtain ⟨w, rfl, ⟨e, hrun, -⟩ | ⟨hrun, -⟩⟩ := outcome_cases h <;>
  · rw [show x _ = _ from hrun] at hthrives
    exact hthrives.quiet (.of_eq rfl rfl rfl rfl)

/-- The outcome of a step that only proceeds. -/
theorem outcome_spec {x : StepM Unit} (h : outcome pins before (runStep scope s x) =
    (scope', .ok next)) (hx : Runs (m.Proceeds external) x) (hspawn : Spawner.Sound m.spawn)
    (hsound : scope.system.Sound) (hs : (begin scope s).Suits m parent) :
    next.Suits scope'.system parent m.definition m.implementations ∧
      Lineage scope.system scope'.system scope.session scope'.effects external s.children
        next.children := by
  have hquiet := quiet_pinning scope.system (s.children.map Prod.snd)
  have hbegin : (begin { scope with system := scope.system.pinning (s.children.map Prod.snd) }
      s).Tracks scope.system scope.session external s.children :=
    ⟨(Lineage.refl _ _ _ _ _).mono hquiet.follows (List.Subset.refl _), rfl⟩
  have hsuits : (begin { scope with system := scope.system.pinning (s.children.map Prod.snd) }
      s).Suits m parent := { hs with offspring := hs.offspring.mono hquiet.follows }
  obtain ⟨hafter, htracks⟩ := after_spec hx hspawn (hsound.thrives.quiet hquiet) hsuits hbegin
  unfold StepM.after at hafter htracks
  obtain ⟨w, rfl, ⟨e, -, hresult⟩ | ⟨hrun, hresult⟩⟩ := outcome_cases h
  · cases hresult
  · cases hresult
    rw [show x _ = _ from hrun] at hafter htracks
    have hunpinned : w.scope.system.Quiet (w.scope.unpin pins).system := .of_eq rfl rfl rfl rfl
    exact ⟨(suits_finish hafter before).mono hunpinned.follows,
      htracks.lineage.mono hunpinned.follows (List.Subset.refl _)⟩

/-! ### First snapshots -/

theorem runs_initial {event : Event} : Runs (m.Proceeds none) (do
    m.enterInitial event
    m.macrostep none event) :=
  .bind proceeds_enterInitial fun _ => runs_macrostep

theorem initialState_thrives {input : Json} (h : m.initialState scope input = (scope', result))
    (hspawn : Spawner.Sound m.spawn) (hsound : scope.system.Sound) :
    scope.system.Thrives scope'.system := outcome_thrives h runs_initial hspawn hsound

theorem initialState_spec {input : Json} (h : m.initialState scope input = (scope', .ok next))
    (hspawn : Spawner.Sound m.spawn) (hsound : scope.system.Sound) (hscope : scope.Belongs parent) :
    next.Suits scope'.system parent m.definition m.implementations := by
  refine (outcome_spec h runs_initial hspawn hsound ?_).1
  exact ⟨rfl, SortedMap.sorted_nil, fun _ => ⟨Definition.existing_empty, Definition.known_nil⟩,
    .nil, hscope⟩

/-! ### Events -/

theorem transition_thrives {event : Event} (h : m.transition scope s event = (scope', result))
    (hspawn : Spawner.Sound m.spawn) (hsound : scope.system.Sound) :
    scope.system.Thrives scope'.system := by
  unfold transition at h
  split at h
  · exact outcome_thrives h (runs_macrostep (m := m)) hspawn hsound
  · cases h
    exact hsound.thrives

/-- What a machine makes of an event: its snapshot suits it, and its children are accounted for. -/
theorem transition_spec {event : Event} (h : m.transition scope s event = (scope', .ok next))
    (hspawn : Spawner.Sound m.spawn) (hsound : scope.system.Sound) (hscope : scope.Belongs parent)
    (hs : s.Suits scope.system parent m.definition m.implementations) :
    next.Suits scope'.system parent m.definition m.implementations ∧
      Lineage scope.system scope'.system scope.session scope'.effects (some event) s.children
        next.children := by
  unfold transition at h
  split at h
  · exact outcome_spec h runs_macrostep hspawn hsound (suits_begin hscope hs)
  · cases h
    exact ⟨⟨hs.definition, hs.value, hs.tags, hs.sorted, hs.existing, hs.offspring⟩,
      .refl _ _ _ _ _⟩

/-! ### Stops -/

theorem runs_stop : Runs (m.Proceeds none) (do
    m.runAllExits stopEvent
    StepM.modifySnapshot fun s => { s with status := .stopped }) :=
  .bind (proceeds_of_acts runs_runAllExits) fun _ => .modify fun w => .halted w

theorem stop_cases (h : m.stop scope s = (scope', result)) :
    (s.status ≠ .active ∧ scope' = scope ∧ result = .ok { s with status := .stopped }) ∨
      (∃ e, outcome scope.system.pins (some s) (m.stopRun scope s) = (scope', .error e) ∧
        result = .error e) ∨
      ∃ scope₁ s₁, outcome scope.system.pins (some s) (m.stopRun scope s) = (scope₁, .ok s₁) ∧
        scope' = (releaseChildren scope₁ s₁).1 ∧ result = .ok (releaseChildren scope₁ s₁).2 := by
  unfold stop at h
  split at h
  · generalize outcome scope.system.pins (some s) (m.stopRun scope s) = out at h ⊢
    obtain ⟨scope₁, result₁⟩ := out
    cases result₁ with
    | error e =>
        cases h
        exact .inr (.inl ⟨e, rfl, rfl⟩)
    | ok s₁ =>
        cases h
        exact .inr (.inr ⟨scope₁, s₁, rfl, rfl, rfl⟩)
  · rename_i hstatus
    cases h
    exact .inl ⟨hstatus, rfl, rfl⟩

theorem stop_thrives (h : m.stop scope s = (scope', result)) (hspawn : Spawner.Sound m.spawn)
    (hsound : scope.system.Sound) : scope.system.Thrives scope'.system := by
  rcases stop_cases h with ⟨-, rfl, -⟩ | ⟨e, hrun, -⟩ | ⟨scope₁, s₁, hrun, rfl, -⟩
  · exact hsound.thrives
  · exact outcome_thrives hrun runs_stop hspawn hsound
  · exact (outcome_thrives hrun runs_stop hspawn hsound).quiet (.of_eq rfl rfl rfl rfl)

theorem stop_spec (h : m.stop scope s = (scope', .ok next)) (hspawn : Spawner.Sound m.spawn)
    (hsound : scope.system.Sound) (hscope : scope.Belongs parent)
    (hs : s.Suits scope.system parent m.definition m.implementations) :
    next.Suits scope'.system parent m.definition m.implementations ∧
      Lineage scope.system scope'.system scope.session scope'.effects none s.children
        next.children := by
  rcases stop_cases h with ⟨-, rfl, hnext⟩ | ⟨e, -, hnext⟩ | ⟨scope₁, s₁, hrun, rfl, hnext⟩
  · cases hnext
    exact ⟨⟨hs.definition, hs.value, hs.tags, hs.sorted, hs.existing, hs.offspring⟩,
      .refl _ _ _ _ _⟩
  · cases hnext
  · cases hnext
    obtain ⟨hs, hlineage⟩ := outcome_spec hrun runs_stop hspawn hsound (suits_begin hscope hs)
    refine ⟨⟨hs.definition, hs.value, hs.tags, hs.sorted, hs.existing, .nil⟩, ?_⟩
    -- the stop of all children that are left is asked for
    refine (hlineage.mono (.refl _) (List.subset_append_left _ _)).leave
      (List.nil_subset _) fun c hc _ => .inl ?_
    exact List.mem_append_right _ (List.mem_map.mpr ⟨c, hc, rfl⟩)

/-- A machine that has stopped says so. -/
theorem status_of_stop (h : m.stop scope s = (scope', .ok next)) : next.status = .stopped := by
  rcases stop_cases h with ⟨-, -, hnext⟩ | ⟨e, -, hnext⟩ | ⟨scope₁, s₁, hrun, -, hnext⟩
  · cases hnext
    rfl
  · cases hnext
  · cases hnext
    obtain ⟨w, -, ⟨e, -, hs⟩ | ⟨hsteps, hs⟩⟩ := outcome_cases hrun
    · cases hs
    · cases hs
      obtain ⟨_, _, -, hlast⟩ := bind_eq_ok hsteps
      cases hlast
      rfl

end Machine

end Statechart
