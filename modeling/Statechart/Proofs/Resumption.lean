import Mathlib.Data.List.Perm.Basic
import Statechart.Proofs.Running
import Statechart.Proofs.Storing

/-!
# Going on from a stored snapshot

What is stored of a snapshot determines it: history states and states are found again by their ids
(`storedHistory_historyById`), the configuration is read back from the state value, and the children
are made anew from their own stored forms.
-/

namespace Statechart

/-! ## Ids -/

/-- No state has an id that begins with the sign for ids. -/
def Definition.PlainIds (d : Definition Logic) : Prop :=
  ∀ i < d.nodes.size, (d.node i).id.toList.head? ≠ some '#'

instance (d : Definition Logic) : Decidable d.PlainIds :=
  inferInstanceAs (Decidable (∀ i < d.nodes.size, (d.node i).id.toList.head? ≠ some '#'))

/-- A text finds the state whose id it is without the signs for ids before it. -/
theorem Definition.WellFormed.find?_eq_some_iff {d : Definition Logic} (wf : d.WellFormed)
    {id : String} {i : Nat} :
    d.find? id = some i ↔ i < d.nodes.size ∧ (d.node i).id = Text.dropLeading '#' id := by
  have hnode : ∀ j (hj : j < d.nodes.toList.length), d.nodes.toList[j] = d.node j := by
    intro j hj
    have hj' : j < d.nodes.size := by simpa using hj
    rw [node, Array.getElem?_eq_getElem hj', Option.getD_some, Array.getElem_toList]
  rw [find?, List.findIdx?_eq_some_iff_getElem]
  constructor
  · rintro ⟨hi, hid, -⟩
    rw [hnode] at hid
    exact ⟨by simpa using hi, by simpa using hid⟩
  · rintro ⟨hi, hid⟩
    refine ⟨by simpa using hi, ?_, fun j hji => ?_⟩
    · rw [hnode, hid]
      exact beq_self_eq_true _
    · rw [hnode, ← hid]
      intro heq
      have hj : j < d.nodes.size := Nat.lt_trans hji hi
      exact absurd (wf.id_inj j hj i hi (by simpa using heq)) (Nat.ne_of_lt hji)

/-- A state is found by its id. -/
theorem Definition.WellFormed.find?_id {d : Definition Logic} (wf : d.WellFormed)
    (hids : d.PlainIds) {i : Nat} (hi : i < d.nodes.size) : d.find? (d.node i).id = some i :=
  wf.find?_eq_some_iff.mpr ⟨hi, (Text.dropLeading_eq (hids i hi)).symm⟩

namespace Machine

variable {m : Machine}

/-! ## History -/

/-- What a history state has recorded, by ids. -/
def storedEntry (d : Definition Logic) (e : Nat × List Nat) : String × List String :=
  ((d.node e.1).id, e.2.map fun s => (d.node s).id)

theorem storedState_id (wf : m.definition.WellFormed) (hids : m.definition.PlainIds) {i : Nat}
    (hi : i < m.definition.nodes.size) (what : String) :
    m.storedState what (m.definition.node i).id = .ok i := by
  rw [storedState, wf.find?_id hids hi]

theorem storedStates_ids (wf : m.definition.WellFormed) (hids : m.definition.PlainIds) :
    ∀ {xs : List Nat}, (∀ x ∈ xs, x < m.definition.nodes.size) →
      m.storedStates (xs.map fun s => (m.definition.node s).id) = .ok xs
  | [], _ => rfl
  | x :: rest, h => by
      rw [List.map_cons, storedStates, storedState_id wf hids (h x List.mem_cons_self),
        storedStates_ids wf hids fun y hy => h y (List.mem_cons_of_mem _ hy)]
      rfl

/-- Entries by ids are inserted as what they stand for. -/
theorem storedHistory_entries (wf : m.definition.WellFormed) (hids : m.definition.PlainIds) :
    ∀ {entries done : HistoryValue}, m.definition.Known entries →
      m.storedHistory done (entries.map (storedEntry m.definition)) =
        .ok (entries.foldl (fun done e => SortedMap.insert e.1 e.2 done) done)
  | [], _, _ => rfl
  | e :: rest, done, h => by
      obtain ⟨hkey, hstates⟩ := h e List.mem_cons_self
      rw [List.map_cons, storedEntry, storedHistory, storedState_id wf hids hkey,
        storedStates_ids wf hids hstates, List.foldl_cons]
      exact storedHistory_entries wf hids fun e' he' => h e' (List.mem_cons_of_mem _ he')

/-- History that is stored by ids is found again. -/
theorem storedHistory_historyById (wf : m.definition.WellFormed) (hids : m.definition.PlainIds)
    {history : HistoryValue} (hsorted : SortedMap.Sorted history)
    (hknown : m.definition.Known history) :
    m.storedHistory [] (historyById m.definition history) = .ok history := by
  have hnodup : ((history.map (storedEntry m.definition)).map Prod.fst).Nodup := by
    rw [List.map_map]
    refine List.pairwise_map.mpr (List.Pairwise.imp_of_mem (fun {e e'} he he' hlt heq => ?_) hsorted)
    exact absurd (wf.id_inj e.1 (hknown e he).1 e'.1 (hknown e' he').1 heq) (Nat.ne_of_lt hlt)
  -- sorting by ids only changes the order of the entries
  obtain ⟨entries, hentries, hperm⟩ : ∃ entries : HistoryValue,
      historyById m.definition history = entries.map (storedEntry m.definition) ∧
        entries.Perm history := by
    obtain ⟨entries, hall, hperm⟩ := List.perm_comp_forall₂
      (r := fun x e => x = storedEntry m.definition e) (SortedMap.perm_ofList hnodup)
      (List.forall₂_map_left_iff.mpr (List.forall₂_same.mpr fun _ _ => rfl))
    refine ⟨entries, ?_, hperm⟩
    exact List.forall₂_eq_eq_eq ▸ List.forall₂_map_right_iff.mpr hall
  have hknown' : m.definition.Known entries := fun e he => hknown e (hperm.mem_iff.mp he)
  have hkeys : (entries.map Prod.fst).Nodup := by
    refine (hperm.map Prod.fst).nodup_iff.mpr ?_
    exact List.pairwise_map.mpr (hsorted.imp fun h => Nat.ne_of_lt h)
  rw [hentries, storedHistory_entries wf hids hknown']
  refine congrArg Except.ok (SortedMap.Sorted.ext ?_ hsorted fun e => ?_)
  · exact List.foldlRecOn entries _ SortedMap.sorted_nil fun _ h e _ => h.insert e.1 e.2
  · exact ((SortedMap.perm_ofList hkeys).trans hperm).mem_iff

/-! ## Everything but the children -/

/-- A stored snapshot is brought back up to its children. -/
theorem restoreOwn_storeMachine (wf : m.definition.WellFormed) (hids : m.definition.PlainIds)
    {sys : System} {parent : Option Session} {s : MachineSnapshot}
    (hsuits : s.Suits sys parent m.definition m.implementations)
    (hconfig : m.definition.Possible s.config)
    (children : List (String × PersistedChild PersistedSnapshot)) :
    m.restoreOwn (storeMachine m.definition s children) =
      .ok { MachineSnapshot.start m.definition s.context with
        config := s.config
        history := s.history
        status := s.status
        output := s.output
        error := s.error } := by
  have hvalue : m.definition.ofValue s.value = .ok s.config := by
    rw [hsuits.value, wf.ofValue_stateValue hconfig]
  have hhistory := storedHistory_historyById wf hids hsuits.sorted (hsuits.existing wf).2
  unfold restoreOwn storeMachine
  exact Except.bind_eq_ok.mpr ⟨s.value, rfl, Except.bind_eq_ok.mpr ⟨s.config, hvalue,
    Except.bind_eq_ok.mpr ⟨s.history, hhistory, rfl⟩⟩⟩

end Machine

/-! ## Bringing back -/

/-- Children by id, with the keys of their behaviours and their system ids. -/
def System.kin (sys : System) (children : List (String × Session)) :
    List (String × Option String × Option String) :=
  children.map fun c => (c.1, (sys.actor c.2).source, (sys.actor c.2).systemId)

/-- A way to make actors that can bring back what is stored less than `n` generations deep. -/
def Spawner.Brings (spawn : Spawner) (n : Nat) : Prop :=
  ∀ ⦃sys : System⦄ ⦃logic : Logic⦄ ⦃spec : ActorSpec⦄ ⦃stored : PersistedSnapshot⦄,
    spec.snapshot = some stored → stored.generations < n →
      ∃ depth, stored.generations ≤ depth ∧
        spawn sys logic spec = make (depth + 1) sys logic spec

theorem brings_make {n depth : Nat} (h : n ≤ depth) : Spawner.Brings (make depth) n := by
  intro sys logic spec stored _ hlt
  obtain ⟨k, rfl⟩ : ∃ k, depth = k + 1 := ⟨depth - 1, by omega⟩
  exact ⟨k, by omega, rfl⟩

/-- Whatever brings back the deepest of several children brings back the first of them and the rest. -/
theorem Spawner.Brings.cons {spawn : Spawner} {id : String} {child : PersistedChild PersistedSnapshot}
    {rest : List (String × PersistedChild PersistedSnapshot)}
    (h : Spawner.Brings spawn (PersistedSnapshot.generationsAll ((id, child) :: rest))) :
    child.snapshot.generations < PersistedSnapshot.generationsAll ((id, child) :: rest) ∧
      Spawner.Brings spawn (PersistedSnapshot.generationsAll rest) := by
  refine ⟨Nat.lt_of_lt_of_le (Nat.lt_succ_self _) (Nat.le_max_left _ _), ?_⟩
  intro sys logic spec stored hspec hlt
  exact h hspec (Nat.lt_of_lt_of_le hlt (Nat.le_max_right _ _))

/-- What is stored is brought back however deep it is. -/
theorem brings_spawn (n : Nat) : Spawner.Brings spawn n := by
  intro sys logic spec stored hspec _
  refine ⟨999 + stored.generations, by omega, ?_⟩
  have hdepth : nesting + spec.storedDepth = 999 + stored.generations + 1 := by
    rw [ActorSpec.storedDepth, hspec, nesting]
    simp only
    omega
  rw [spawn, hdepth]

/-- A snapshot that goes on from another one, which may be in another system. -/
def Snapshot.Resumes (sys sys' : System) : Snapshot → Snapshot → Prop
  | .machine s, .machine s' =>
      s' = { s with children := s'.children, changed := false, actions := [] } ∧
        sys'.kin s'.children = sys.kin s.children
  | .value v, .value v' => v' = v
  | _, _ => False

/-- What is stored of a snapshot can be brought back anywhere, and is then stored alike. -/
structure Returns (sys : System) (snapshot : Snapshot) (logic : Logic)
    (stored : PersistedSnapshot) : Prop where
  store : logic.store sys sys.store snapshot = .ok stored
  back : ∀ spawn : Spawner, Spawner.Sound spawn → Spawner.Brings spawn stored.generations →
    ∀ scope : Scope, scope.system.Sound → ∃ scope' snapshot',
      logic.restore spawn scope stored = (scope', .ok snapshot') ∧
        snapshot.Resumes sys scope'.system snapshot' ∧
          logic.store scope'.system scope'.system.store snapshot' = .ok stored

/-- An actor is made anew from what is stored. -/
theorem Returns.make {sys : System} {snapshot : Snapshot} {logic : Logic}
    {stored : PersistedSnapshot} (h : Returns sys snapshot logic stored) {spawn : Spawner}
    (hspawn : Spawner.Sound spawn) {n : Nat} (hbrings : Spawner.Brings spawn n)
    (hn : stored.generations < n) {target : System} (htarget : target.Sound) {spec : ActorSpec}
    (hspec : spec.snapshot = some stored) : ∃ target' session a,
      spawn target logic spec = (target', .ok session) ∧ target'.actor? session = some a ∧
        a.source = spec.source ∧ a.systemId = spec.systemId ∧
          target'.store session = .ok stored := by
  obtain ⟨depth, hdepth, hmake⟩ : ∃ depth, stored.generations ≤ depth ∧
      spawn target logic spec = Statechart.make (depth + 1) target logic spec := hbrings hspec hn
  have hscope : (spec.scope target).system.Sound := htarget.newSession
  obtain ⟨scope', snapshot', hrestore, -, hstore⟩ :=
    h.back (Statechart.make depth) (sound_make depth) (brings_make hdepth) (spec.scope target) hscope
  have hthrives := Logic.restore_thrives hrestore (sound_make depth) hscope
  have hsuits := Logic.restore_spec hrestore (sound_make depth) hscope (spec.belongs_scope target)
  let a := spec.actor target logic scope' snapshot'
  have hresult : spawn target logic spec = (scope'.system.register a, .ok target.newSession.2) := by
    have hfirst : spec.first (Statechart.make depth) (spec.scope target) logic =
        (scope', .ok snapshot') := by
      rw [ActorSpec.first, hspec]
      exact hrestore
    rw [hmake, make_ok hfirst]
  have ha : (scope'.system.register a).actor? target.newSession.2 = some a := by
    rw [System.actor?_register]
    exact if_pos rfl
  have hsound := (hspawn htarget hresult).1.sound
  refine ⟨_, _, a, hresult, ha, rfl, rfl, ?_⟩
  -- to register the actor itself does not change how its children are stored
  rw [System.store_eq hsound ha]
  rw [← hstore]
  exact System.store_snapshot_kept hthrives.sound hsound
    (fun s b hb => System.kept_register htarget hthrives rfl hb) hsuits

namespace Machine

variable {sys : System}

/-- A child that can be brought back is brought back, and kept while its siblings follow. -/
theorem restoreChildren_cons (d : Definition Logic) {implementations : Implementations Logic}
    {spawn : Spawner} (hspawn : Spawner.Sound spawn) (id : String) {key : String}
    (child : PersistedChild PersistedSnapshot) {logic : Logic} (hkey : child.source = some key)
    (hlogic : implementations.actors key = some logic) {snapshot : Snapshot}
    (hreturns : Returns sys snapshot logic child.snapshot) {n : Nat}
    (hbrings : Spawner.Brings spawn n) (hn : child.snapshot.generations < n) {scope : Scope}
    (hscope : scope.system.Sound) (made : List (String × Session))
    (rest : List (String × PersistedChild PersistedSnapshot)) :
    ∃ scope' session a, scope.system.Thrives scope'.system ∧
      restoreChildren { definition := d, implementations, spawn } scope made ((id, child) :: rest) =
        restoreChildren { definition := d, implementations, spawn } scope'
          (SortedMap.insert id session made) rest ∧
      scope'.system.actor? session = some a ∧ a.source = child.source ∧
        a.systemId = child.systemId ∧ scope'.system.store session = .ok child.snapshot := by
  obtain ⟨keeps, heq⟩ := restoreChildren_make (m := { definition := d, implementations, spawn })
    id hkey hlogic scope made rest
  have hpinned : scope.system.Thrives (scope.system.pinning keeps) :=
    hscope.thrives.quiet (.of_eq rfl rfl rfl rfl)
  have hspec : (restoredSpec scope id key child).snapshot = some child.snapshot := rfl
  obtain ⟨system, session, a, hmade, ha, hsource, hsystemId, hstore⟩ :=
    hreturns.make hspawn hbrings hn hpinned.sound hspec
  have hthrives := hpinned.trans (hspawn hpinned.sound hmade).1
  have hnow : scope.system.Thrives { system with pins := scope.system.pins } :=
    hthrives.quiet (.of_eq rfl rfl rfl rfl)
  rw [heq]
  simp only
  rw [hmade]
  refine ⟨_, session, a, hnow, rfl, ha, ?_, hsystemId, ?_⟩
  · rw [hsource, hkey]
    rfl
  · rw [← hstore]
    exact System.store_kept hthrives.sound hnow.sound (fun _ _ h => h) ha

/-- A child is stored with the key of its behaviour and its system id, before its siblings. -/
theorem storeChildren_cons {id : String} {session : Session} {a : Actor}
    (ha : sys.actor? session = some a) {stored : PersistedSnapshot}
    (hstored : sys.store session = .ok stored) {rest : List (String × Session)}
    {others : List (String × PersistedChild PersistedSnapshot)}
    (hothers : storeChildren sys sys.store rest = .ok others) :
    storeChildren sys sys.store ((id, session) :: rest) =
      .ok ((id, { source := a.source, systemId := a.systemId, snapshot := stored }) :: others) := by
  rw [storeChildren, System.actor_eq ha]
  exact Except.bind_eq_ok.mpr ⟨stored, hstored, Except.bind_eq_ok.mpr ⟨others, hothers, rfl⟩⟩

/-- Children that each can be brought back are brought back together, in the same order. -/
theorem restoreChildren_back (hsound : sys.Sound) (d : Definition Logic)
    {implementations : Implementations Logic} {children : List (String × Session)}
    (hsorted : SortedMap.Sorted children)
    (hchildren : ∀ c ∈ children, ∃ a key stored, sys.actor? c.2 = some a ∧ a.source = some key ∧
      implementations.actors key = some a.logic ∧ Returns sys a.snapshot a.logic stored) :
    ∃ stored, storeChildren sys sys.store children = .ok stored ∧
      ∀ spawn : Spawner, Spawner.Sound spawn →
        Spawner.Brings spawn (PersistedSnapshot.generationsAll stored) →
        ∀ (scope : Scope) (made : List (String × Session)), scope.system.Sound →
        (∀ e ∈ made, ∀ c ∈ children, e.1 < c.1) → ∃ scope' children',
          restoreChildren { definition := d, implementations, spawn } scope made stored =
              (scope', .ok (made ++ children')) ∧
            scope.system.Thrives scope'.system ∧
            scope'.system.kin children' = sys.kin children ∧
            storeChildren scope'.system scope'.system.store children' = .ok stored := by
  induction children with
  | nil =>
      refine ⟨[], rfl, fun spawn _ _ scope made hscope _ => ⟨scope, [], ?_, hscope.thrives, rfl, rfl⟩⟩
      rw [restoreChildren, List.append_nil]
  | cons c rest ih =>
      obtain ⟨id, c⟩ := c
      obtain ⟨hfirst, hrest⟩ := List.pairwise_cons.mp hsorted
      obtain ⟨a, key, stored, ha, hkey, hlogic, hreturns⟩ := hchildren (id, c) List.mem_cons_self
      obtain ⟨others, hothers, hback⟩ := ih hrest fun c hc => hchildren c (List.mem_cons_of_mem _ hc)
      have hstore : sys.store c = .ok stored := (System.store_eq hsound ha).trans hreturns.store
      refine ⟨_, storeChildren_cons ha hstore hothers,
        fun spawn hspawn hbrings scope made hscope hlast => ?_⟩
      obtain ⟨hdeep, hbrings'⟩ := hbrings.cons
      obtain ⟨scope₁, session, b, hthrives₁, heq, hb, hsource, hsystemId, hstore₁⟩ :=
        restoreChildren_cons d hspawn id
          { source := a.source, systemId := a.systemId, snapshot := stored }
          hkey hlogic hreturns hbrings hdeep hscope made others
      -- the new child comes after all those that have been made
      have hinsert : SortedMap.insert id session made = made ++ [(id, session)] :=
        SortedMap.insert_last (fun e he => hlast e he (id, c) List.mem_cons_self) session
      have hlast' : ∀ e ∈ made ++ [(id, session)], ∀ c ∈ rest, e.1 < c.1 := by
        intro e he c hc
        rcases List.mem_append.mp he with he | he
        · exact hlast e he c (List.mem_cons_of_mem _ hc)
        · rw [List.mem_singleton.mp he]
          exact hfirst c hc
      obtain ⟨scope', children', hrestore, hthrives, hkin, hstored⟩ :=
        hback spawn hspawn hbrings' scope₁ (made ++ [(id, session)]) hthrives₁.sound hlast'
      -- and is still there, and stored alike, once its siblings have followed
      have hb' := hthrives.grown.kept session b hb
      have hstore' : scope'.system.store session = .ok stored :=
        (System.store_kept hthrives₁.sound hthrives.sound hthrives.grown.kept hb).trans hstore₁
      refine ⟨scope', (id, session) :: children', ?_, hthrives₁.trans hthrives, ?_, ?_⟩
      · rw [heq, hinsert, hrestore, List.append_assoc, List.singleton_append]
      · show (id, _, _) :: scope'.system.kin children' = (id, _, _) :: sys.kin rest
        rw [hkin, System.actor_eq hb', System.actor_eq ha, hsource, hsystemId]
      · rw [storeChildren_cons hb' hstore' hstored, hsource, hsystemId]

/-- A machine that is brought back up to its children, and then they, goes on from where it was. -/
theorem restore_storeMachine {m : Machine} (wf : m.definition.WellFormed)
    (hids : m.definition.PlainIds) {parent : Option Session} {s : MachineSnapshot}
    (hsuits : s.Suits sys parent m.definition m.implementations)
    (hconfig : m.definition.Possible s.config)
    {stored : List (String × PersistedChild PersistedSnapshot)} {scope scope' : Scope}
    {children : List (String × Session)}
    (hchildren : m.restoreChildren scope [] stored = (scope', .ok children)) :
    m.restore scope (storeMachine m.definition s stored) =
      (scope', .ok { s with children := children, changed := false, actions := [] }) := by
  have horigin : m.checkOrigin (storeMachine m.definition s stored) scope.system = scope.system :=
    if_pos rfl
  have hstored : (storeMachine m.definition s stored).children = stored := rfl
  unfold restore
  simp only [horigin, restoreOwn_storeMachine wf hids hsuits hconfig stored, hstored, hchildren,
    MachineSnapshot.start, MachineSnapshot.refresh]
  -- what is computed anew from the configuration is what the snapshot has
  rw [← hsuits.value, hsuits.definition, hsuits.tags]

end Machine

/-! ## Whole trees -/

/-- A snapshot that its behaviour can go on from. For a machine, its definition was built, and has no
ids that begin with `#`; its configuration is valid and not empty; and all children were made from
keys that still stand for something, and can go on themselves. -/
inductive Resumable (sys : System) : Logic → Snapshot → Prop
  | machine {d : Definition Logic} {implementations : Implementations Logic} {s : MachineSnapshot}
      (raw : MachineConfig) (hkeys : raw.root.KeysDistinct) (hbuild : Definition.build raw = .ok d)
      (hids : d.PlainIds)
      (hvalid : d.isValid s.config = true) (hne : s.config ≠ .empty)
      (hsources : ∀ c ∈ s.children, ∃ key, (sys.actor c.2).source = some key ∧
        (implementations.actors key).isSome = true)
      (hbelow : ∀ c ∈ s.children, Resumable sys (sys.actor c.2).logic (sys.actor c.2).snapshot) :
      Resumable sys (.machine d implementations) (.machine s)
  | other {logic : Logic} {snapshot : Snapshot}
      (h : ∀ d implementations, logic ≠ .machine d implementations) :
      Resumable sys logic snapshot

/-- A machine is brought back when all its children are. -/
theorem Machine.returns {sys : System} (hsound : sys.Sound) {d : Definition Logic}
    (wf : d.WellFormed) (hids : d.PlainIds) {implementations : Implementations Logic}
    {s : MachineSnapshot} {parent : Option Session}
    (hsuits : s.Suits sys parent d implementations) (hconfig : d.Possible s.config)
    (hchildren : ∀ c ∈ s.children, ∃ a key stored, sys.actor? c.2 = some a ∧ a.source = some key ∧
      implementations.actors key = some a.logic ∧ Returns sys a.snapshot a.logic stored) :
    ∃ stored, Returns sys (.machine s) (.machine d implementations) stored := by
  obtain ⟨children, hstored, hback⟩ :=
    restoreChildren_back hsound d hsuits.offspring.sorted hchildren
  refine ⟨storeMachine d s children, Except.bind_eq_ok.mpr ⟨children, hstored, rfl⟩,
    fun spawn hspawn hbrings scope hscope => ?_⟩
  obtain ⟨scope', children', hrestore, -, hkin, hagain⟩ :=
    hback spawn hspawn hbrings scope [] hscope (by simp)
  have hresult := restore_storeMachine (m := { definition := d, implementations, spawn })
    wf hids hsuits hconfig hrestore
  refine ⟨scope', .machine { s with children := children', changed := false, actions := [] },
    ?_, ⟨rfl, hkin⟩, Except.bind_eq_ok.mpr ⟨children, hagain, rfl⟩⟩
  rw [Logic.restore, hresult]
  rfl

/-- The whole tree below a snapshot is brought back. -/
theorem Resumable.returns {sys : System} (hsound : sys.Sound) {logic : Logic}
    {snapshot : Snapshot} (h : Resumable sys logic snapshot) {parent : Option Session}
    (hsuits : snapshot.Suits sys parent logic) : ∃ stored, Returns sys snapshot logic stored := by
  induction h generalizing parent with
  | @machine d implementations s raw hkeys hbuild hids hvalid hne hsources hbelow ih =>
      have hsuits : s.Suits sys parent d implementations := hsuits
      have wf := Definition.wellFormed_of_build hkeys hbuild
      have hconfig : d.Possible s.config :=
        wf.possible_iff.mpr ⟨hvalid, hne, (hsuits.existing wf).1⟩
      refine Machine.returns hsound wf hids hsuits hconfig fun c hc => ?_
      obtain ⟨a, ha, -, -, hlogic⟩ := hsuits.offspring.made c hc
      obtain ⟨key, hkey, -⟩ := hsources c hc
      have hbelongs : (sys.actor c.2).snapshot.Suits sys (some c.2) (sys.actor c.2).logic := by
        rw [System.actor_eq ha]
        exact hsound.suits c.2 a ha
      obtain ⟨stored, hstored⟩ := ih c hc hbelongs
      rw [System.actor_eq ha] at hkey hstored
      exact ⟨a, key, stored, ha, hkey, hlogic key hkey, hstored⟩
  | @other logic snapshot h =>
      cases snapshot with
      | machine s =>
          cases logic with
          | machine d implementations => exact absurd rfl (h d implementations)
          | reducer | task => exact hsuits.elim
      | value v =>
          cases logic with
          | machine => exact hsuits.elim
          | reducer | task =>
              exact ⟨storeValue v, rfl, fun _ _ _ scope _ => ⟨scope, .value v, rfl, rfl, rfl⟩⟩

/-! ## Machines -/

namespace Machine

variable {m : Machine}

/-- What is stored of a snapshot of a machine. -/
def persist (m : Machine) (sys : System) (s : MachineSnapshot) :
    Except ActorError PersistedSnapshot :=
  (Logic.machine m.definition m.implementations).store sys sys.store (.machine s)

/-- Steps do not look at what the last one did. -/
theorem transition_unmarked (scope : Scope) (s : MachineSnapshot) (event : Event) :
    m.transition scope { s with changed := false, actions := [] } event =
      m.transition scope s event := by
  unfold transition
  by_cases h : s.status = .active
  · rw [if_pos h, if_pos h]
    rfl
  · rw [if_neg h, if_neg h]

/-- A snapshot that a machine has got, here or elsewhere, is stored and brought back as it was, with
all children, and is stored in the same way again. Without children it goes on in the same way. -/
theorem restore_persist (hspawn : m.spawn = Statechart.spawn) {d target : Delivery}
    {s : MachineSnapshot} (hs : m.Obtained d s)
    (hresumable : Resumable d.system (.machine m.definition m.implementations) (.machine s))
    (htarget : Delivery.Reached target) {scope : Scope} (hscope : scope.system = target.system) :
    ∃ stored scope' s', m.persist d.system s = .ok stored ∧
      m.restore scope stored = (scope', .ok s') ∧
      (s'.config = s.config ∧ s'.value = s.value ∧ s'.context = s.context ∧
        s'.history = s.history ∧ s'.tags = s.tags ∧ s'.status = s.status ∧
        s'.output = s.output ∧ s'.error = s.error) ∧
      scope'.system.kin s'.children = d.system.kin s.children ∧
      m.persist scope'.system s' = .ok stored ∧
      (s.children = [] → ∀ scope event, m.transition scope s' event = m.transition scope s event) := by
  obtain ⟨stored, hstored, hback⟩ := hresumable.returns (hs.reached hspawn).sound.system
    (hs.suits hspawn)
  have hsystem := htarget.sound.system
  rw [← hscope] at hsystem
  obtain ⟨scope', snapshot', hrestore, hresumes, hagain⟩ := hback m.spawn (hspawn ▸ sound_spawn)
    (hspawn ▸ brings_spawn _) scope hsystem
  rw [Logic.restore] at hrestore
  obtain ⟨hscope', hresult⟩ := Prod.mk.inj hrestore
  obtain ⟨s', hs', rfl⟩ := Except.map_eq_ok.mp hresult
  obtain ⟨hsame, hkin⟩ := hresumes
  refine ⟨stored, scope', s', hstored, Prod.ext hscope' hs', ?_, hkin, hagain,
    fun hnone scope event => ?_⟩
  · rw [hsame]
    exact ⟨rfl, rfl, rfl, rfl, rfl, rfl, rfl, rfl⟩
  · -- no kin on one side, so no children on the other
    have hnone' : s'.children = s.children := by
      rw [hnone] at hkin
      rw [hnone, List.map_eq_nil_iff.mp hkin]
    rw [hsame, hnone']
    exact transition_unmarked scope s event

/-- A lamp, which is off. -/
def lampJson : Json :=
  .obj [("id", .str "lamp"), ("initial", .str "off"), ("states", .obj
    [("off", .obj [("on", .obj [("FLIP", .str "lit")])]), ("lit", .obj [])])]

/-- What a lamp is built to. -/
def lampDefinition : Definition Logic := (Definition.ofJson lampJson).toOption.getD default

/-- A hall with a lamp. -/
def hallJson : Json :=
  .obj [("id", .str "hall"), ("initial", .str "open"), ("states", .obj
    [("open", .obj [("invoke", .obj [("id", .str "light"), ("src", .str "lamp")])])])]

def hall : Machine where
  definition := (Definition.ofJson hallJson).toOption.getD default
  implementations :=
    { (default : Implementations Logic) with
      actors := fun _ => some (.machine lampDefinition default) }
  spawn := Statechart.spawn

set_option maxRecDepth 100000 in
/-- A hall is brought back with its lamp. -/
theorem hall_restored : ∃ scope s stored scope' s',
    hall.initialState (.detached default "hall") .null = (scope, .ok s) ∧
      s.children = [("light", ⟨1⟩)] ∧ hall.persist scope.system s = .ok stored ∧
      hall.restore scope stored = (scope', .ok s') ∧
      scope'.system.kin s'.children = [("light", some "lamp", none)] := by
  have hhall : (Definition.ofJson (L := Logic) hallJson).isOk = true := rfl
  have hlamp : (Definition.ofJson (L := Logic) lampJson).isOk = true := rfl
  obtain ⟨raw, hkeys, hbuild⟩ := Definition.exists_build (ok_of_isOk hhall)
  obtain ⟨raw', hkeys', hbuild'⟩ := Definition.exists_build (ok_of_isOk hlamp)
  obtain ⟨scope, s, hfirst, hchildren, hconfig, hvalid, hsource, hsystemId, hlogic, below, hbelow,
      hconfig', hvalid', hnone⟩ : ∃ scope s,
      hall.initialState (.detached default "hall") .null = (scope, .ok s) ∧
        s.children = [("light", ⟨1⟩)] ∧ s.config.toList = [0, 1] ∧
        hall.definition.isValid s.config = true ∧
        (scope.system.actor ⟨1⟩).source = some "lamp" ∧
        (scope.system.actor ⟨1⟩).systemId = none ∧
        (scope.system.actor ⟨1⟩).logic = .machine lampDefinition default ∧
        ∃ below, (scope.system.actor ⟨1⟩).snapshot = .machine below ∧
          below.config.toList = [0, 1] ∧ lampDefinition.isValid below.config = true ∧
          below.children = [] :=
    ⟨_, _, rfl, rfl, rfl, rfl, rfl, rfl, rfl, _, rfl, rfl, rfl, rfl⟩
  have hne : ∀ config : Configuration, config.toList = [0, 1] → config ≠ .empty := by
    intro config h hempty
    rw [hempty] at h
    cases h
  have hlight : Resumable scope.system (.machine lampDefinition default) (.machine below) :=
    .machine raw' hkeys' hbuild' (of_decide_eq_true rfl) hvalid' (hne _ hconfig')
      (by simp [hnone]) (by simp [hnone])
  have hresumable : Resumable scope.system (.machine hall.definition hall.implementations)
      (.machine s) := by
    refine .machine raw hkeys hbuild (of_decide_eq_true rfl) hvalid (hne _ hconfig) ?_ ?_
    · intro c hc
      rw [hchildren, List.mem_singleton] at hc
      rw [hc]
      exact ⟨"lamp", hsource, rfl⟩
    · intro c hc
      rw [hchildren, List.mem_singleton] at hc
      rw [hc]
      simp only
      rw [hlogic, hbelow]
      exact hlight
  have hreached := Delivery.Reached.fresh (Scope.detached default "hall").system rfl
  have hs : hall.Obtained (.done scope.system) s := .initialState hreached rfl rfl hfirst
  have hscope : scope.system = (Delivery.done scope.system).system := rfl
  obtain ⟨stored, scope', s', hstored, hrestore, -, hkin, -⟩ :=
    restore_persist rfl hs hresumable (hs.reached rfl) hscope
  refine ⟨scope, s, stored, scope', s', hfirst, hchildren, hstored, hrestore, ?_⟩
  rw [hkin, hchildren]
  show [("light", (scope.system.actor ⟨1⟩).source, (scope.system.actor ⟨1⟩).systemId)] = _
  rw [hsource, hsystemId]

end Machine

end Statechart
