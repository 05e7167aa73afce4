import Statechart.Proofs.Spawning

/-!
# Storing actors

Children are made after their parents, so in a sound system an actor is stored with all that is
below it, however much fuel there is beyond that (`storeWithin_stable`), and `store_eq` unfolds the
stored form of an actor. Actors that are made later do not change it (`store_kept`).
-/

namespace Statechart

/-! ## Snapshots -/

/-- Children that are stored alike give the same list. -/
theorem storeChildren_congr {sys sys' : System}
    {store store' : Session → Except ActorError PersistedSnapshot} :
    ∀ {children : List (String × Session)},
      (∀ c ∈ children, store' c.2 = store c.2 ∧ sys'.actor c.2 = sys.actor c.2) →
        storeChildren sys' store' children = storeChildren sys store children
  | [], _ => rfl
  | (id, c) :: rest, h => by
      obtain ⟨hstore, hactor⟩ := h (id, c) List.mem_cons_self
      simp only at hstore hactor
      rw [storeChildren, storeChildren, hstore, hactor,
        storeChildren_congr fun c hc => h c (List.mem_cons_of_mem _ hc)]

theorem Logic.store_congr {sys sys' : System}
    {store store' : Session → Except ActorError PersistedSnapshot} {snapshot : Snapshot}
    (h : ∀ c ∈ snapshot.children, store' c.2 = store c.2 ∧ sys'.actor c.2 = sys.actor c.2)
    (logic : Logic) : logic.store sys' store' snapshot = logic.store sys store snapshot := by
  cases logic with
  | machine d implementations =>
      cases snapshot with
      | machine s =>
          have hchildren : storeChildren sys' store' s.children =
              storeChildren sys store s.children := storeChildren_congr h
          rw [Logic.store, Logic.store]
          simp only [hchildren]
      | value v => rfl
  | reducer initial next => rfl
  | task run => rfl

namespace System

variable {sys sys' : System}

/-! ## Fuel -/

/-- Beyond the actors that there are, fuel does not matter. -/
theorem storeWithin_stable (hsound : sys.Sound) : ∀ {fuel fuel' : Nat} {s : Session} {a : Actor},
    sys.actor? s = some a → sys.nextSession ≤ fuel + s.number →
      sys.nextSession ≤ fuel' + s.number → sys.storeWithin fuel s = sys.storeWithin fuel' s
  | 0, _, s, a, ha, hfuel, _ => by
      have := hsound.fresh s a ha
      omega
  | _ + 1, 0, s, a, ha, _, hfuel => by
      have := hsound.fresh s a ha
      omega
  | fuel + 1, fuel' + 1, s, a, ha, hfuel, hfuel' => by
      rw [storeWithin, storeWithin, actor_eq ha]
      refine Logic.store_congr (fun c hc => ⟨?_, rfl⟩) a.logic
      obtain ⟨b, hb, -, hlate⟩ := (hsound.suits s a ha).children c hc
      have := (hlate s rfl).1
      exact storeWithin_stable hsound hb (by omega) (by omega)

/-- The stored form of an actor is that of its snapshot. -/
theorem store_eq (hsound : sys.Sound) {s : Session} {a : Actor} (ha : sys.actor? s = some a) :
    sys.store s = a.logic.store sys sys.store a.snapshot := by
  rw [store, storeWithin, actor_eq ha]
  refine Logic.store_congr (fun c hc => ⟨?_, rfl⟩) a.logic
  obtain ⟨b, hb, -⟩ := (hsound.suits s a ha).children c hc
  exact storeWithin_stable hsound hb (by omega) (by omega)

/-! ## Growing -/

/-- Actors that are added do not change how the others are stored. -/
theorem store_kept (hsound : sys.Sound) (hsound' : sys'.Sound)
    (hkept : ∀ s a, sys.actor? s = some a → sys'.actor? s = some a) {s : Session} {a : Actor}
    (ha : sys.actor? s = some a) : sys'.store s = sys.store s := by
  -- children have greater numbers, all below that of the next session
  induction hn : sys.nextSession - s.number using Nat.strongRecOn generalizing s a with
  | _ n ih =>
      rw [store_eq hsound ha, store_eq hsound' (hkept s a ha)]
      refine Logic.store_congr (fun c hc => ?_) a.logic
      obtain ⟨b, hb, -, hlate⟩ := (hsound.suits s a ha).children c hc
      have hlater := (hlate s rfl).1
      have hfresh := hsound.fresh c.2 b hb
      refine ⟨ih _ (by omega) hb rfl, ?_⟩
      rw [actor_eq hb, actor_eq (hkept c.2 b hb)]

/-- A snapshot is stored in the same way after actors have been added. -/
theorem store_snapshot_kept (hsound : sys.Sound) (hsound' : sys'.Sound)
    (hkept : ∀ s a, sys.actor? s = some a → sys'.actor? s = some a) {parent : Option Session}
    {snapshot : Snapshot} {logic : Logic} (h : snapshot.Suits sys parent logic) :
    logic.store sys' sys'.store snapshot = logic.store sys sys.store snapshot := by
  refine Logic.store_congr (fun c hc => ?_) logic
  obtain ⟨b, hb, -⟩ := h.children c hc
  rw [store_kept hsound hsound' hkept hb, actor_eq hb, actor_eq (hkept c.2 b hb)]
  exact ⟨rfl, rfl⟩

end System

end Statechart
