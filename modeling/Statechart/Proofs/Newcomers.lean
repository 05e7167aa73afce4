import Statechart.Proofs.Spawning

/-!
# What a step does to the system around it

Behaviours see the whole system, but all that they do to it at once is to make actors and to give
notice of what is missing (`System.Peopled`). Neither the clock nor the timers are touched, and what
is registered stays so; only a system id may go over to an actor that has been made.
-/

namespace Statechart

namespace System

/-- A system id stands for an actor that has been made meanwhile. -/
def TakenOver (sys sys' : System) (id : String) : Prop :=
  ∃ t b, sys.nextSession ≤ t.number ∧ sys'.actor? t = some b ∧ b.systemId = some id ∧
    SortedMap.find? id sys'.systemIds = some t

/-- Actors have been made and notices given. All else about a system is as it was. -/
structure Peopled (sys sys' : System) : Prop where
  rest : sys' = { sys with
    actors := sys'.actors, registered := sys'.registered, systemIds := sys'.systemIds
    nextSession := sys'.nextSession, pins := sys'.pins, records := sys'.records }
  notices : ∃ ns : List Notice, sys'.records = ns.map .notice ++ sys.records
  registered : ∀ n ∈ sys.registered, n ∈ sys'.registered
  systemIds : ∀ id, SortedMap.find? id sys'.systemIds = SortedMap.find? id sys.systemIds ∨
    sys.TakenOver sys' id

variable {sys sys' sys'' : System}

theorem Peopled.refl (sys : System) : sys.Peopled sys :=
  ⟨rfl, ⟨[], rfl⟩, fun _ hn => hn, fun _ => .inl rfl⟩

theorem Peopled.trans (h : sys.Peopled sys') (h' : sys'.Peopled sys'')
    (hnext : sys.nextSession ≤ sys'.nextSession) (hgrown : sys'.Grown sys'') :
    sys.Peopled sys'' where
  rest := by
    have hrest := h'.rest
    rw [h.rest] at hrest
    exact hrest
  notices := by
    obtain ⟨ns, hns⟩ := h.notices
    obtain ⟨ns', hns'⟩ := h'.notices
    exact ⟨ns' ++ ns, by rw [hns', hns, List.map_append, List.append_assoc]⟩
  registered n hn := h'.registered n (h.registered n hn)
  systemIds id := by
    rcases h'.systemIds id with hsame | ⟨t, b, hlate, hb, hid, hfind⟩
    · rcases h.systemIds id with hsame' | ⟨t, b, hlate, hb, hid, hfind⟩
      · exact .inl (hsame.trans hsame')
      · exact .inr ⟨t, b, hlate, hgrown.kept t b hb, hid, hsame.trans hfind⟩
    · exact .inr ⟨t, b, Nat.le_trans hnext hlate, hb, hid, hfind⟩

theorem peopled_note (sys : System) (n : Notice) : sys.Peopled (sys.note n) :=
  ⟨rfl, ⟨[n], rfl⟩, fun _ hn => hn, fun _ => .inl rfl⟩

theorem peopled_newSession (sys : System) : sys.Peopled sys.newSession.1 :=
  ⟨rfl, ⟨[], rfl⟩, fun _ hn => hn, fun _ => .inl rfl⟩

/-- Who keeps what does not matter. -/
theorem Peopled.pins (h : sys.Peopled sys') (pins : List Session) :
    sys.Peopled { sys' with pins } :=
  ⟨by rw [h.rest], h.notices, h.registered, h.systemIds⟩

theorem peopled_pinning (sys : System) (sessions : List Session) :
    sys.Peopled (sys.pinning sessions) := (Peopled.refl sys).pins _

theorem systemIds_register (sys : System) (a : Actor) (id : String) :
    SortedMap.find? id (sys.register a).systemIds =
      if a.systemId = some id then some a.session else SortedMap.find? id sys.systemIds := by
  unfold register
  cases hid : a.systemId with
  | none => rfl
  | some own =>
      simp only [SortedMap.find?_insert, Option.some.injEq]
      split
      · rfl
      · split <;> rfl

/-- A new actor may take a system id over. -/
theorem Peopled.register (h : sys.Peopled sys') {a : Actor}
    (hlate : sys.nextSession ≤ a.session.number)
    (hkept : ∀ s b, sys'.actor? s = some b → (sys'.register a).actor? s = some b) :
    sys.Peopled (sys'.register a) where
  rest := by
    -- whatever the system id, only these fields change
    have hregister : sys'.register a = { sys' with
        actors := (sys'.register a).actors, registered := (sys'.register a).registered
        systemIds := (sys'.register a).systemIds, records := (sys'.register a).records } := by
      unfold System.register
      split
      · rfl
      · simp only
        split <;> rfl
    rw [hregister, h.rest]
  notices := by
    obtain ⟨ns, hns⟩ := h.notices
    unfold System.register
    split
    · exact ⟨ns, hns⟩
    · simp only
      split
      · exact ⟨_ :: ns, by rw [List.map_cons, List.cons_append, ← hns]; rfl⟩
      · exact ⟨ns, hns⟩
  registered n hn := by
    rw [registered_register, NodeSet.mem_insert]
    exact .inr (h.registered n hn)
  systemIds id := by
    by_cases hid : a.systemId = some id
    · refine .inr ⟨a.session, a, hlate, ?_, hid, ?_⟩
      · rw [actor?_register, if_pos rfl]
      · rw [systemIds_register, if_pos hid]
    · rcases h.systemIds id with hsame | ⟨t, b, hlate', hb, hid', hfind⟩
      · exact .inl (by rw [systemIds_register, if_neg hid, hsame])
      · exact .inr ⟨t, b, hlate', hkept t b hb, hid', by rw [systemIds_register, if_neg hid, hfind]⟩

end System

/-! ## Making actors -/

/-- A way to make actors that does nothing else to a system. -/
def Spawner.Peoples (spawn : Spawner) : Prop :=
  ∀ ⦃sys sys' : System⦄ ⦃logic : Logic⦄ ⦃spec : ActorSpec⦄ ⦃result : Except ActorError Session⦄,
    spec.snapshot = none → sys.Sound → spawn sys logic spec = (sys', result) → sys.Peopled sys'

namespace Machine

open StepM

variable {m : Machine} {sys : System} {w w' : Work} {external : Option Event}

theorem Acts.peopled (hsound : Spawner.Sound m.spawn) (hspawn : Spawner.Peoples m.spawn)
    (h : m.Acts w w') (hw : w.scope.system.Sound) :
    w.scope.system.Peopled w'.scope.system := by
  have hmade : ∀ {logic : Logic} {spec : ActorSpec} {system : System}
      {result : Except ActorError Session}, spec.snapshot = none →
        m.spawn w.system logic spec = (system, result) →
          w.scope.system.Peopled { system with pins := w.scope.system.pins } := by
    intro logic spec system result hfresh hmade
    have hpinned : w.system.Sound := hw.quiet (.of_eq rfl rfl rfl rfl)
    have hgrown := (hsound hpinned hmade).1.grown
    exact ((System.peopled_pinning w.scope.system _).trans (hspawn hfresh hpinned hmade)
      (Nat.le_refl _) hgrown).pins _
  cases h with
  | noted n => exact System.peopled_note _ n
  | spawned logic spec system child _ hfresh _ h => exact hmade hfresh h
  | spawnFailed logic spec system e _ hfresh h => exact hmade hfresh h
  | _ => exact .refl _

/-- A step makes actors and gives notices. -/
theorem Proceeds.peopled (hsound : Spawner.Sound m.spawn) (hspawn : Spawner.Peoples m.spawn)
    (h : m.Proceeds external w w') (hw : w.scope.system.Sound) :
    w.scope.system.Peopled w'.scope.system := by
  cases h with
  | acted h => exact h.peopled hsound hspawn hw
  | _ => exact .refl _

/-- A part of a step that only proceeds makes actors and gives notices, abandoned or not. -/
theorem after_peopled {x : StepM Unit} (hx : Runs (m.Proceeds external) x)
    (hsound : Spawner.Sound m.spawn) (hspawn : Spawner.Peoples m.spawn)
    (hw : w.scope.system.Sound) : w.scope.system.Peopled (x.after w).scope.system := by
  have hall := hx.runsFrom
    (p := fun w' => w.scope.system.Thrives w'.scope.system ∧
      w.scope.system.Peopled w'.scope.system)
    fun w₁ w₂ h ⟨hthrives, hpeopled⟩ => by
      have hnext := h.thrives hsound hthrives.sound.thrives
      exact ⟨hthrives.trans hnext, hpeopled.trans (h.peopled hsound hspawn hthrives.sound)
        hthrives.grown.next hnext.grown⟩
  exact (hall w ⟨hw.thrives, .refl _⟩).2.2

variable {scope scope' : Scope} {s : MachineSnapshot} {before : Option MachineSnapshot}
  {result : Except ActorError MachineSnapshot}

theorem outcome_peopled {pins : List Session} {x : StepM Unit}
    (h : outcome pins before (runStep scope s x) = (scope', result))
    (hx : Runs (m.Proceeds external) x) (hsound : Spawner.Sound m.spawn)
    (hspawn : Spawner.Peoples m.spawn) (hw : scope.system.Sound) :
    scope.system.Peopled scope'.system := by
  have hbegin := hw.quiet (quiet_pinning scope.system (s.children.map Prod.snd))
  have hthrives := after_thrives hx hsound
    (w := begin { scope with system := scope.system.pinning (s.children.map Prod.snd) } s)
    hbegin.thrives
  have hpeopled := after_peopled hx hsound hspawn
    (w := begin { scope with system := scope.system.pinning (s.children.map Prod.snd) } s) hbegin
  have hafter := (System.peopled_pinning scope.system (s.children.map Prod.snd)).trans hpeopled
    (Nat.le_refl _) hthrives.grown
  unfold StepM.after at hafter
  obtain ⟨w, rfl, ⟨e, hrun, -⟩ | ⟨hrun, -⟩⟩ := outcome_cases h <;>
  · rw [show x _ = _ from hrun] at hafter
    exact hafter.pins _

/-- What a machine does to the system when it starts. -/
theorem initialState_peopled {input : Json} (h : m.initialState scope input = (scope', result))
    (hsound : Spawner.Sound m.spawn) (hspawn : Spawner.Peoples m.spawn)
    (hw : scope.system.Sound) : scope.system.Peopled scope'.system :=
  outcome_peopled h runs_initial hsound hspawn hw

/-- What a machine does to the system when it takes an event. -/
theorem transition_peopled {event : Event} (h : m.transition scope s event = (scope', result))
    (hsound : Spawner.Sound m.spawn) (hspawn : Spawner.Peoples m.spawn)
    (hw : scope.system.Sound) : scope.system.Peopled scope'.system := by
  unfold transition at h
  split at h
  · exact outcome_peopled h (runs_macrostep (m := m)) hsound hspawn hw
  · cases h
    exact .refl _

end Machine

theorem Logic.initialSnapshot_peopled {spawn : Spawner} {logic : Logic} {scope scope' : Scope}
    {input : Json} {result : Except ActorError Snapshot}
    (h : logic.initialSnapshot spawn scope input = (scope', result))
    (hsound : Spawner.Sound spawn) (hspawn : Spawner.Peoples spawn) (hw : scope.system.Sound) :
    scope.system.Peopled scope'.system := by
  cases logic with
  | machine d implementations =>
      cases h
      exact Machine.initialState_peopled (m := { definition := d, implementations, spawn }) rfl
        hsound hspawn hw
  | reducer initial next =>
      cases h
      exact .refl _
  | task run =>
      cases h
      exact .refl _

theorem peoples_make : ∀ depth, Spawner.Peoples (make depth)
  | 0 => by
      intro sys sys' logic spec result _ _ h
      cases h
      exact .refl _
  | depth + 1 => by
      intro sys sys' logic spec result hfresh hsound h
      cases hfirst : spec.first (make depth) (spec.scope sys) logic with
      | mk scope' made =>
          have hthrives := ActorSpec.first_thrives hfirst (sound_make depth) hsound.newSession
          have hinitial : logic.initialSnapshot (make depth) (spec.scope sys) spec.input =
              (scope', made) := by
            rw [← hfirst, ActorSpec.first, hfresh]
          have hpeopled : sys.Peopled scope'.system :=
            (System.peopled_newSession sys).trans
              (Logic.initialSnapshot_peopled hinitial (sound_make depth) (peoples_make depth)
                hsound.newSession) (Nat.le_succ _) hthrives.grown
          cases made with
          | error e =>
              cases (make_error hfirst).symm.trans h
              exact hpeopled
          | ok snapshot =>
              cases (make_ok hfirst).symm.trans h
              exact hpeopled.register (Nat.le_refl _) fun s b hb =>
                System.kept_register hsound hthrives rfl hb

/-- To make an actor does nothing else to a system. -/
theorem peoples_spawn : Spawner.Peoples spawn := by
  intro sys sys' logic spec result hfresh hsound h
  exact peoples_make _ hfresh hsound h

end Statechart
