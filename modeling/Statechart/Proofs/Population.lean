import Mathlib.Data.Nat.Basic
import Mathlib.Data.String.Basic
import Statechart.Proofs.Existing
import Statechart.System

/-!
# The actors of a system

`System.Sound` says what holds of all actors at any time: they stand under their sessions, and their
snapshots suit their behaviours. A system that has `Grown` has more actors, the old ones as they were;
in a system that `Follows` another one, the old ones may have moved on.
-/

namespace Statechart

/-! ## Looking up -/

namespace System

variable {sys sys' sys'' : System} {s : Session}

/-- Every actor stands under its own session. -/
def Keyed (sys : System) : Prop := ∀ s a, sys.actor? s = some a → a.session = s

theorem actor_eq {a : Actor} (h : sys.actor? s = some a) : sys.actor s = a := by
  rw [actor, h]
  rfl

theorem actor?_setActor (sys : System) (a : Actor) (s : Session) :
    (sys.setActor a).actor? s = if a.session = s then some a else sys.actor? s := by
  have hsession : a.session = s ↔ a.session.number = s.number := by
    cases hs : a.session
    cases s
    simp
  simp only [actor?, setActor, SortedMap.find?_insert, hsession]

/-- To modify one actor leaves the others as they are. -/
theorem actor?_modify (hkeyed : sys.Keyed) {f : Actor → Actor}
    (hf : ∀ a, (f a).session = a.session) (s s' : Session) :
    (sys.modify s f).actor? s' = if s = s' then (sys.actor? s').map f else sys.actor? s' := by
  unfold modify
  cases h : sys.actor? s with
  | none =>
      simp only
      split
      · rename_i heq
        rw [← heq, h]
        rfl
      · rfl
  | some a =>
      simp only [actor?_setActor, hf, hkeyed s a h]
      split
      · rename_i heq
        rw [← heq, h]
        rfl
      · rfl

theorem modify_none (f : Actor → Actor) (h : sys.actor? s = none) : sys.modify s f = sys := by
  rw [modify, h]

theorem nextSession_modify (sys : System) (s : Session) (f : Actor → Actor) :
    (sys.modify s f).nextSession = sys.nextSession := by
  unfold modify
  split <;> rfl

/-! ## Leaving actors alone -/

/-- Nothing has happened to the actors, and no timer has been added. -/
structure Quiet (sys sys' : System) : Prop where
  actor? : ∀ s, sys'.actor? s = sys.actor? s
  next : sys'.nextSession = sys.nextSession
  registered : sys'.registered = sys.registered
  timers : ∀ t ∈ sys'.scheduler.timers, t ∈ sys.scheduler.timers

theorem Quiet.of_eq (hactors : sys'.actors = sys.actors)
    (hnext : sys'.nextSession = sys.nextSession) (hregistered : sys'.registered = sys.registered)
    (hscheduler : sys'.scheduler = sys.scheduler) : sys.Quiet sys' where
  actor? s := by rw [System.actor?, System.actor?, hactors]
  next := hnext
  registered := hregistered
  timers t ht := hscheduler ▸ ht

theorem Quiet.refl (sys : System) : sys.Quiet sys := .of_eq rfl rfl rfl rfl

theorem Quiet.trans (h : sys.Quiet sys') (h' : sys'.Quiet sys'') : sys.Quiet sys'' where
  actor? s := (h'.actor? s).trans (h.actor? s)
  next := h'.next.trans h.next
  registered := h'.registered.trans h.registered
  timers t ht := h.timers t (h'.timers t ht)

theorem Quiet.actor (h : sys.Quiet sys') (s : Session) : sys'.actor s = sys.actor s := by
  rw [System.actor, System.actor, h.actor? s]

/-! ## Growing -/

/-- More actors have been made, and nothing else has happened to the old ones. -/
structure Grown (sys sys' : System) : Prop where
  next : sys.nextSession ≤ sys'.nextSession
  kept : ∀ s a, sys.actor? s = some a → sys'.actor? s = some a
  added : ∀ s a, sys'.actor? s = some a →
    sys.actor? s = some a ∨ sys.nextSession ≤ s.number ∧ a.mailbox = {}
  unobserved : ∀ s a, sys'.actor? s = some a → sys.actor? s = some a ∨ a.observers = []
  registered : ∀ n ∈ sys'.registered, n ∈ sys.registered ∨ sys.nextSession ≤ n
  timers : ∀ t ∈ sys'.scheduler.timers, t ∈ sys.scheduler.timers

/-- New actors have new mailboxes. -/
theorem Grown.mailbox (h : sys.Grown sys') (s : Session) :
    (sys'.actor s).mailbox = (sys.actor s).mailbox := by
  cases ha : sys.actor? s with
  | some a => rw [actor_eq ha, actor_eq (h.kept s a ha)]
  | none =>
      cases ha' : sys'.actor? s with
      | none => rw [actor, actor, ha, ha']
      | some a =>
          rw [actor_eq ha', actor, ha]
          rcases h.added s a ha' with hold | ⟨-, hnew⟩
          · rw [ha] at hold
            cases hold
          · exact hnew

/-- New actors have no observers. -/
theorem Grown.observers (h : sys.Grown sys') (s : Session) :
    (sys'.actor s).observers = (sys.actor s).observers := by
  cases ha : sys.actor? s with
  | some a => rw [actor_eq ha, actor_eq (h.kept s a ha)]
  | none =>
      cases ha' : sys'.actor? s with
      | none => rw [actor, actor, ha, ha']
      | some a =>
          rw [actor_eq ha', actor, ha]
          refine (h.unobserved s a ha').resolve_left ?_
          rw [ha]
          nofun

theorem Quiet.grown (h : sys.Quiet sys') : sys.Grown sys' where
  next := Nat.le_of_eq h.next.symm
  kept s a ha := by rw [h.actor? s, ha]
  added s a ha := .inl (by rwa [h.actor? s] at ha)
  unobserved s a ha := .inl (by rwa [h.actor? s] at ha)
  registered n hn := .inl (h.registered ▸ hn)
  timers := h.timers

theorem Grown.refl (sys : System) : sys.Grown sys := (Quiet.refl sys).grown

theorem Grown.trans (h : sys.Grown sys') (h' : sys'.Grown sys'') : sys.Grown sys'' where
  next := Nat.le_trans h.next h'.next
  kept s a ha := h'.kept s a (h.kept s a ha)
  added s a ha := by
    rcases h'.added s a ha with ha | ⟨hle, hmail⟩
    · exact h.added s a ha
    · exact .inr ⟨Nat.le_trans h.next hle, hmail⟩
  unobserved s a ha := by
    rcases h'.unobserved s a ha with ha | hnone
    · exact h.unobserved s a ha
    · exact .inr hnone
  registered n hn := by
    rcases h'.registered n hn with hn | hle
    · exact h.registered n hn
    · exact .inr (Nat.le_trans h.next hle)
  timers t ht := h.timers t (h'.timers t ht)

end System

/-- What an actor may turn into. -/
def Actor.Becomes (a a' : Actor) : Prop :=
  a' = { a with
    mailbox := a'.mailbox, snapshot := a'.snapshot, observers := a'.observers
    pending := a'.pending }

namespace System

variable {sys sys' sys'' : System}

/-- A later state of a system. -/
structure Follows (sys sys' : System) : Prop where
  next : sys.nextSession ≤ sys'.nextSession
  actor : ∀ s a, sys.actor? s = some a → ∃ a', sys'.actor? s = some a' ∧ a.Becomes a'

theorem Grown.follows (h : sys.Grown sys') : sys.Follows sys' :=
  ⟨h.next, fun s a ha => ⟨a, h.kept s a ha, rfl⟩⟩

theorem Quiet.follows (h : sys.Quiet sys') : sys.Follows sys' := h.grown.follows

theorem Follows.refl (sys : System) : sys.Follows sys := (Quiet.refl sys).follows

theorem Follows.trans (h : sys.Follows sys') (h' : sys'.Follows sys'') : sys.Follows sys'' where
  next := Nat.le_trans h.next h'.next
  actor s a ha := by
    obtain ⟨a', ha', hbecomes⟩ := h.actor s a ha
    obtain ⟨a'', ha'', hbecomes'⟩ := h'.actor s a' ha'
    refine ⟨a'', ha'', ?_⟩
    unfold Actor.Becomes at hbecomes hbecomes' ⊢
    rw [hbecomes'] at *
    rw [hbecomes]

end System

/-! ## Snapshots -/

/-- Children that a machine can have. All of them exist under their ids, those that were spawned by
a key behave as that key says, and they were made later than their parent, if that is an actor. -/
structure Offspring (sys : System) (parent : Option Session)
    (implementations : Implementations Logic) (children : List (String × Session)) : Prop where
  sorted : SortedMap.Sorted children
  made : ∀ c ∈ children, ∃ a, sys.actor? c.2 = some a ∧ a.id = c.1 ∧
    (∀ p, parent = some p → p.number < c.2.number ∧ a.parent = some p) ∧
    ∀ key, a.source = some key → implementations.actors key = some a.logic

/-- A snapshot that a machine can have, by itself or as the actor that its children have as parent.
-/
structure MachineSnapshot.Suits (s : MachineSnapshot) (sys : System) (parent : Option Session)
    (d : Definition Logic) (implementations : Implementations Logic) : Prop where
  definition : s.definition = d
  value : s.value = d.stateValue s.config
  tags : s.tags = d.tags s.config
  sorted : SortedMap.Sorted s.history
  existing : d.WellFormed → d.Existing s.config ∧ d.Known s.history
  offspring : Offspring sys parent implementations s.children

/-- A snapshot that an actor with a behaviour can have. -/
def Snapshot.Suits (sys : System) (parent : Option Session) : Snapshot → Logic → Prop
  | .machine s, .machine d implementations => s.Suits sys parent d implementations
  | .value _, .machine _ _ => False
  | .machine _, _ => False
  | .value _, _ => True

variable {sys sys' : System} {parent : Option Session}

theorem Offspring.mono {implementations : Implementations Logic}
    {children : List (String × Session)} (h : Offspring sys parent implementations children)
    (hsys : sys.Follows sys') : Offspring sys' parent implementations children := by
  refine ⟨h.sorted, fun c hc => ?_⟩
  obtain ⟨a, ha, hid, hparent, hsource⟩ := h.made c hc
  obtain ⟨a', ha', hbecomes⟩ := hsys.actor _ a ha
  refine ⟨a', ha', ?_⟩
  rw [hbecomes]
  exact ⟨hid, hparent, hsource⟩

theorem Offspring.nil {implementations : Implementations Logic} :
    Offspring sys parent implementations [] := ⟨SortedMap.sorted_nil, by simp⟩

/-- Whose children they are can be left open. -/
theorem Offspring.orphaned {implementations : Implementations Logic}
    {children : List (String × Session)} (h : Offspring sys parent implementations children) :
    Offspring sys none implementations children := by
  refine ⟨h.sorted, fun c hc => ?_⟩
  obtain ⟨a, ha, hid, -, hsource⟩ := h.made c hc
  exact ⟨a, ha, hid, nofun, hsource⟩

theorem MachineSnapshot.Suits.mono {s : MachineSnapshot} {d : Definition Logic}
    {implementations : Implementations Logic} (h : s.Suits sys parent d implementations)
    (hsys : sys.Follows sys') : s.Suits sys' parent d implementations :=
  { h with offspring := h.offspring.mono hsys }

theorem MachineSnapshot.Suits.orphaned {s : MachineSnapshot} {d : Definition Logic}
    {implementations : Implementations Logic} (h : s.Suits sys parent d implementations) :
    s.Suits sys none d implementations :=
  { h with offspring := h.offspring.orphaned }

@[simp] theorem Snapshot.children_stopped (s : Snapshot) : s.stopped.children = s.children := by
  cases s <;> rfl

@[simp] theorem Snapshot.status_stopped (s : Snapshot) : s.stopped.status = .stopped := by
  cases s <;> rfl

@[simp] theorem Snapshot.children_failed (s : Snapshot) (data : Json) :
    (s.failed data).children = s.children := by
  cases s <;> rfl

@[simp] theorem Snapshot.status_failed (s : Snapshot) (data : Json) :
    (s.failed data).status = .error := by
  cases s <;> rfl

namespace Snapshot.Suits

variable {snapshot : Snapshot} {logic : Logic}

theorem mono (h : snapshot.Suits sys parent logic) (hsys : sys.Follows sys') :
    snapshot.Suits sys' parent logic := by
  cases snapshot <;> cases logic
  · exact MachineSnapshot.Suits.mono h hsys
  all_goals exact h

/-- Neither the status nor an error matters. -/
theorem failed (h : snapshot.Suits sys parent logic) (data : Json) :
    (snapshot.failed data).Suits sys parent logic := by
  cases snapshot <;> cases logic
  · exact { MachineSnapshot.Suits.mono h (.refl sys) with }
  all_goals exact h

theorem stopped (h : snapshot.Suits sys parent logic) :
    snapshot.stopped.Suits sys parent logic := by
  cases snapshot <;> cases logic
  · exact { MachineSnapshot.Suits.mono h (.refl sys) with }
  all_goals exact h

/-- The children of a snapshot that suits exist, each under its id. -/
theorem children (h : snapshot.Suits sys parent logic) : ∀ c ∈ snapshot.children,
    ∃ a, sys.actor? c.2 = some a ∧ a.id = c.1 ∧
      ∀ p, parent = some p → p.number < c.2.number ∧ a.parent = some p := by
  intro c hc
  cases snapshot with
  | value v => cases hc
  | machine s =>
      cases logic with
      | machine d implementations =>
          obtain ⟨a, ha, hid, hparent, -⟩ := (MachineSnapshot.Suits.offspring h).made c hc
          exact ⟨a, ha, hid, hparent⟩
      | reducer initial next => exact h.elim
      | task run => exact h.elim

end Snapshot.Suits

namespace System

/-- What holds of the actors of a system at any time. -/
structure Sound (sys : System) : Prop where
  keyed : sys.Keyed
  fresh : ∀ s a, sys.actor? s = some a → s.number < sys.nextSession
  suits : ∀ s a, sys.actor? s = some a → a.snapshot.Suits sys (some s) a.logic

/-- Only the actors matter. -/
theorem Sound.same (h : sys.Sound) (hactors : ∀ t, sys'.actor? t = sys.actor? t)
    (hnext : sys'.nextSession = sys.nextSession) : sys'.Sound := by
  have hfollows : sys.Follows sys' :=
    ⟨Nat.le_of_eq hnext.symm, fun s a ha => ⟨a, (hactors s).trans ha, rfl⟩⟩
  refine ⟨fun s a ha => h.keyed s a (hactors s ▸ ha), fun s a ha => ?_, fun s a ha => ?_⟩
  · rw [hnext]
    exact h.fresh s a (hactors s ▸ ha)
  · exact (h.suits s a (hactors s ▸ ha)).mono hfollows

theorem Sound.quiet (h : sys.Sound) (hquiet : sys.Quiet sys') : sys'.Sound :=
  h.same hquiet.actor? hquiet.next

theorem Sound.actor_none (h : sys.Sound) {s : Session} (hs : sys.nextSession ≤ s.number) :
    sys.actor? s = none := by
  cases ha : sys.actor? s with
  | none => rfl
  | some a =>
      have := h.fresh s a ha
      omega

/-- A system without actors is sound. -/
theorem sound_of_nil (h : sys.actors = []) : sys.Sound := by
  have hnone : ∀ s, sys.actor? s = none := fun s => by rw [actor?, h]; rfl
  constructor <;> intro s a ha <;> rw [hnone] at ha <;> cases ha

/-! ## Changing one actor -/

/-- An actor has turned into another one, and nothing else has happened to the actors. -/
structure Puts (sys : System) (s : Session) (a : Actor) (sys' : System) : Prop where
  actor? : ∀ t, sys'.actor? t = if s = t then some a else sys.actor? t
  next : sys'.nextSession = sys.nextSession
  registered : sys'.registered = sys.registered
  timers : ∀ t ∈ sys'.scheduler.timers, t ∈ sys.scheduler.timers

variable {s : Session} {a a' : Actor}

theorem Puts.self (h : sys.Puts s a sys') : sys'.actor? s = some a := by
  rw [h.actor? s, if_pos rfl]

theorem Puts.other (h : sys.Puts s a sys') {t : Session} (hne : t ≠ s) :
    sys'.actor? t = sys.actor? t := by
  rw [h.actor? t, if_neg (Ne.symm hne)]

theorem Puts.actor_self (h : sys.Puts s a sys') : sys'.actor s = a := actor_eq h.self

theorem Puts.quiet (h : sys.Puts s a sys') (hquiet : sys'.Quiet sys'') : sys.Puts s a sys'' where
  actor? t := (hquiet.actor? t).trans (h.actor? t)
  next := hquiet.next.trans h.next
  registered := hquiet.registered.trans h.registered
  timers t ht := h.timers t (hquiet.timers t ht)

theorem Quiet.puts (hquiet : sys.Quiet sys') (h : sys'.Puts s a sys'') : sys.Puts s a sys'' where
  actor? t := by rw [h.actor? t, hquiet.actor? t]
  next := h.next.trans hquiet.next
  registered := h.registered.trans hquiet.registered
  timers t ht := hquiet.timers t (h.timers t ht)

/-- To change an actor twice is to change it once. -/
theorem Puts.trans (h : sys.Puts s a sys') (h' : sys'.Puts s a' sys'') : sys.Puts s a' sys'' where
  actor? t := by
    rw [h'.actor? t, h.actor? t]
    split <;> rfl
  next := h'.next.trans h.next
  registered := h'.registered.trans h.registered
  timers t ht := h.timers t (h'.timers t ht)

/-- To modify an actor that exists. -/
theorem puts_modify (hkeyed : sys.Keyed) {f : Actor → Actor}
    (hf : ∀ a, (f a).session = a.session) (ha : sys.actor? s = some a) :
    sys.Puts s (f a) (sys.modify s f) := by
  refine ⟨fun t => ?_, nextSession_modify _ _ _, by rw [modify, ha]; rfl, ?_⟩
  · rw [actor?_modify hkeyed hf]
    split
    · rename_i heq
      rw [← heq, ha]
      rfl
    · rfl
  · rw [modify, ha]
    exact fun _ ht => ht

/-- An actor may change in all that does not make it what it is. -/
theorem Puts.follows (h : sys.Puts s a' sys') (ha : sys.actor? s = some a)
    (hbecomes : a.Becomes a') : sys.Follows sys' := by
  refine ⟨Nat.le_of_eq h.next.symm, fun t b hb => ?_⟩
  rw [h.actor? t]
  split
  · rename_i heq
    rw [← heq, ha] at hb
    cases hb
    exact ⟨a', rfl, hbecomes⟩
  · exact ⟨b, hb, rfl⟩

theorem Sound.puts (hsound : sys.Sound) (h : sys.Puts s a' sys') (ha : sys.actor? s = some a)
    (hbecomes : a.Becomes a') (hsuits : a'.snapshot.Suits sys (some s) a.logic) : sys'.Sound := by
  have hfollows := h.follows ha hbecomes
  have hcases : ∀ {t b}, sys'.actor? t = some b → s = t ∧ b = a' ∨ sys.actor? t = some b := by
    intro t b hb
    rw [h.actor? t] at hb
    split at hb
    · rename_i heq
      cases hb
      exact .inl ⟨heq, rfl⟩
    · exact .inr hb
  constructor <;> intro t b hb <;> rcases hcases hb with ⟨rfl, rfl⟩ | hold
  · rw [hbecomes]
    exact hsound.keyed s a ha
  · exact hsound.keyed t b hold
  · rw [h.next]
    exact hsound.fresh s a ha
  · rw [h.next]
    exact hsound.fresh t b hold
  · have hlogic : b.logic = a.logic := by rw [hbecomes]
    rw [hlogic]
    exact hsuits.mono hfollows
  · exact (hsound.suits t b hold).mono hfollows

/-! ## Registering -/

theorem actor?_register (sys : System) (a : Actor) (s : Session) :
    (sys.register a).actor? s = if a.session = s then some a else sys.actor? s := by
  rw [← actor?_setActor]
  unfold register
  simp only
  split
  · rfl
  · simp only [actor?]
    split <;> rfl

theorem nextSession_register (sys : System) (a : Actor) :
    (sys.register a).nextSession = sys.nextSession := by
  unfold register
  simp only
  split
  · rfl
  · simp only
    split <;> rfl

theorem registered_register (sys : System) (a : Actor) :
    (sys.register a).registered = sys.registered.insert a.session.number := by
  unfold register
  simp only
  split
  · rfl
  · simp only
    split <;> rfl

theorem scheduler_register (sys : System) (a : Actor) :
    (sys.register a).scheduler = sys.scheduler := by
  unfold register
  simp only
  split
  · rfl
  · simp only
    split <;> rfl

end System

end Statechart
