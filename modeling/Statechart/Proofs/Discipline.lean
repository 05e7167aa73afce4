import Statechart.Proofs.Deliveries

/-!
# Discipline of deliveries

`Delivery.Sound` is what holds of a system and of what is still to be done at any time: the actors
suit their behaviours, nothing waits in a mailbox that nobody works off, and the frames agree with
the actors that they are about (`Attended`). Every move keeps it (`Moves.sound`).
-/

namespace Statechart

/-! ## Stages and frames -/

namespace Stage

/-- A stage of an actor that is at work. -/
def Active (x : Stage) : Prop := x = .launch ∨ x = .settle

/-- A stage of an actor that is wound up. -/
def Final (x : Stage) : Prop :=
  x = .halt ∨ x = .retire ∨ x = .failed ∨ x = .finish ∨ x = .tell

variable {x : Stage} {ys rest : List Stage}

theorem Final.not_active (h : x.Final) : ¬x.Active := by
  rcases h with rfl | rfl | rfl | rfl | rfl <;> simp [Active]

/-- Once an actor is wound up, only that goes on. -/
theorem Final.turns (h : x.Final) (hturns : x.Turns ys) : ∀ y ∈ ys, y.Final := by
  rcases h with rfl | rfl | rfl | rfl | rfl <;> cases hturns <;> simp [Final]

theorem Final.below (h : x.Final) (hlegal : Legal (x :: rest)) :
    ∀ y ∈ rest, y = .drain ∨ y.Final := by
  rcases h with rfl | rfl | rfl | rfl | rfl
  · rcases hlegal with rfl | rfl | rfl | rfl <;> simp [Final]
  · rcases hlegal with rfl | rfl | rfl | rfl <;> simp [Final]
  · obtain rfl : rest = [.drain] := hlegal
    simp
  · rcases hlegal with rfl | rfl | rfl <;> simp [Final]
  · obtain rfl : rest = [.drain] := hlegal
    simp

end Stage

/-- Who has work to do is working off a mailbox or being wound up. -/
theorem Legal.cases {todo : List Stage} (h : Legal todo) :
    todo = [] ∨ .drain ∈ todo ∨ ∃ x ∈ todo, x.Final := by
  induction todo with
  | nil => exact .inl rfl
  | cons x rest ih =>
      cases x with
      | aside =>
          obtain ⟨hhead, hrest⟩ := h
          rcases ih hrest with rfl | hdrain | ⟨y, hy, hfinal⟩
          · simp at hhead
          · exact .inr (.inl (List.mem_cons_of_mem _ hdrain))
          · exact .inr (.inr ⟨y, List.mem_cons_of_mem _ hy, hfinal⟩)
      | drain => exact .inr (.inl List.mem_cons_self)
      | effects =>
          right; left
          rcases h with rfl | rfl | rfl <;> simp
      | launch =>
          obtain rfl : rest = [.drain] := h
          simp
      | settle =>
          obtain rfl : rest = [.drain] := h
          simp
      | _ => exact .inr (.inr ⟨_, List.mem_cons_self, by simp [Stage.Final]⟩)

/-- What an effect has led to stands on the mailbox of its actor. -/
theorem Legal.below_aside {rest : List Stage} (h : Legal (.aside :: rest)) : .drain ∈ rest := by
  induction rest with
  | nil => simp [Legal] at h
  | cons x rest ih =>
      obtain ⟨hhead, hrest⟩ := h
      rcases hhead with hhead | hhead <;> cases hhead
      · exact List.mem_cons_of_mem _ (ih hrest)
      · rcases hrest with rfl | rfl | rfl <;> simp

/-- Effects stand on the mailbox of their actor. -/
theorem Legal.drain_of_effects {todo : List Stage} (h : Legal todo) (hmem : .effects ∈ todo) :
    .drain ∈ todo := by
  induction todo with
  | nil => cases hmem
  | cons x rest ih =>
      cases x with
      | aside => exact List.mem_cons_of_mem _ (ih h.2 (by simpa using hmem))
      | effects => rcases h with rfl | rfl | rfl <;> simp
      | drain | launch | settle | failed | tell =>
          obtain rfl := h
          simp at hmem
      | halt | retire => rcases h with rfl | rfl | rfl | rfl <;> simp at hmem
      | finish => rcases h with rfl | rfl | rfl <;> simp at hmem

/-- The snapshot of an actor that a frame works with. -/
def Frame.holds (s : Session) : Frame → Option Snapshot
  | .launch t snapshot => if t = s then some snapshot else none
  | .settle t snapshot _ => if t = s then some snapshot else none
  | .failed t snapshot _ => if t = s then some snapshot else none
  | _ => none

section Stages

variable {s : Session} {f : Frame} {frames xs : List Frame}

theorem stages_cons (f : Frame) (frames : List Frame) :
    stages s (f :: frames) = (f.stageOf s).toList ++ stages s frames := by
  cases hf : f.stageOf s <;> simp [stages, hf]

@[simp] theorem stages_nil (s : Session) : stages s [] = [] := rfl

theorem stages_append (xs frames : List Frame) :
    stages s (xs ++ frames) = stages s xs ++ stages s frames := List.filterMap_append

theorem Frame.stageOf_self {x : Stage} (h : f.stage = some (s, x)) : f.stageOf s = some x := by
  rw [stageOf, h]
  exact if_pos rfl

theorem Frame.stage_of_stageOf {x : Stage} (h : f.stageOf s = some x) : f.stage = some (s, x) := by
  obtain ⟨⟨t, y⟩, hstage, h⟩ := Option.bind_eq_some_iff.mp h
  obtain ⟨rfl, heq⟩ := Option.ite_none_right_eq_some.mp h
  cases heq
  exact hstage

theorem Frame.Plain.stageOf (h : f.Plain) (s : Session) : f.stageOf s = none := by
  rw [Frame.stageOf, h.stage]
  rfl

theorem stages_eq_nil (h : ∀ g ∈ xs, g.stageOf s = none) : stages s xs = [] :=
  List.filterMap_eq_nil_iff.mpr h

theorem stages_plain (h : ∀ g ∈ xs, g.Plain) : stages s xs = [] :=
  stages_eq_nil fun g hg => (h g hg).stageOf s

theorem mem_stages {x : Stage} : x ∈ stages s xs ↔ ∃ f ∈ xs, f.stage = some (s, x) := by
  rw [stages, List.mem_filterMap]
  exact exists_congr fun f => and_congr_right fun _ =>
    ⟨Frame.stage_of_stageOf, Frame.stageOf_self⟩

/-- A frame that works with a snapshot is at one of three stages. -/
theorem Frame.stage_of_holds {snapshot : Snapshot} (h : f.holds s = some snapshot) :
    f.stage = some (s, .launch) ∨ f.stage = some (s, .settle) ∨ f.stage = some (s, .failed) := by
  cases f with
  | launch t snapshot =>
      obtain ⟨rfl, -⟩ := Option.ite_none_right_eq_some.mp h
      exact .inl rfl
  | settle t snapshot failure =>
      obtain ⟨rfl, -⟩ := Option.ite_none_right_eq_some.mp h
      exact .inr (.inl rfl)
  | failed t snapshot failure =>
      obtain ⟨rfl, -⟩ := Option.ite_none_right_eq_some.mp h
      exact .inr (.inr rfl)
  | _ => cases h

theorem Frame.holds_eq_none (h : f.stageOf s = none) : f.holds s = none := by
  cases hholds : f.holds s with
  | none => rfl
  | some snapshot =>
      rcases stage_of_holds hholds with hstage | hstage | hstage <;>
      · rw [stageOf_self hstage] at h
        cases h

end Stages

/-! ## Actors at their stages -/

/-- What the stages of an actor that are still to come say about it, unless it is closed next. -/
structure Staged (todo : List Stage) (closing : Prop) (a : Actor) : Prop where
  legal : Legal todo
  marked : .drain ∈ todo ↔ a.mailbox.flushing = true
  running : ∀ x ∈ todo, x.Active → a.status = .running
  stopped : ∀ x ∈ todo, x.Final → a.status = .stopped ∨ closing

namespace Staged

variable {x : Stage} {ys rest todo : List Stage} {closing : Prop} {a a' : Actor}

/-- Nobody is at work for the actor. -/
theorem idle (h : a.mailbox.flushing = false) : Staged [] closing a where
  legal := trivial
  marked := by simp [h]
  running := by simp
  stopped := by simp

/-- The mailbox is worked off. -/
theorem waiting (h : a.mailbox.flushing = true) : Staged [.drain] closing a where
  legal := rfl
  marked := by simp [h]
  running := by simp [Stage.Active]
  stopped := by simp [Stage.Final]

/-- The actor has begun. -/
theorem begun (h : a.mailbox.flushing = true) (hstatus : a.status = .running) :
    Staged [.effects, .launch, .drain] closing a where
  legal := .inl rfl
  marked := by simp [h]
  running _ _ _ := hstatus
  stopped := by simp [Stage.Final]

/-- The actor has taken an event. -/
theorem reacted (h : a.mailbox.flushing = true) (hstatus : a.status = .running) :
    Staged [.effects, .settle, .drain] closing a where
  legal := .inr (.inl rfl)
  marked := by simp [h]
  running _ _ _ := hstatus
  stopped := by simp [Stage.Final]

/-- The actor has taken the stop signal. -/
theorem ending (h : a.mailbox.flushing = true) (hstatus : a.status = .stopped) :
    Staged [.effects, .halt, .finish, .drain] closing a where
  legal := .inr (.inr rfl)
  marked := by simp [h]
  running := by simp [Stage.Active]
  stopped _ _ _ := .inl hstatus

/-- The actor is closed before it has started. -/
theorem closed (h : a.mailbox.flushing = false) (hclosing : closing) :
    Staged [.halt, .finish] closing a where
  legal := .inr (.inr (.inr rfl))
  marked := by simp [h]
  running := by simp [Stage.Active]
  stopped _ _ _ := .inr hclosing

/-- The actor is done. -/
theorem done (h : a.mailbox.flushing = true) (hclosing : closing) :
    Staged [.halt, .finish, .tell, .drain] closing a where
  legal := .inl rfl
  marked := by simp [h]
  running := by simp [Stage.Active]
  stopped _ _ _ := .inr hclosing

/-- The actor has failed. -/
theorem broken (h : a.mailbox.flushing = true) (hclosing : closing) :
    Staged [.halt, .failed, .drain] closing a where
  legal := .inr (.inl rfl)
  marked := by simp [h]
  running := by simp [Stage.Active]
  stopped _ _ _ := .inr hclosing

/-- An actor that is about to settle stands on its mailbox. -/
theorem below_settle (h : Staged (.settle :: rest) closing a) :
    rest = [.drain] ∧ a.mailbox.flushing = true := by
  obtain rfl : rest = [.drain] := h.legal
  exact ⟨rfl, h.marked.mp (by simp)⟩

/-- An actor that is about to be launched stands on its mailbox, and runs. -/
theorem below_launch (h : Staged (.launch :: rest) closing a) :
    rest = [.drain] ∧ a.mailbox.flushing = true ∧ a.status = .running := by
  obtain rfl : rest = [.drain] := h.legal
  exact ⟨rfl, h.marked.mp (by simp), h.running _ List.mem_cons_self (.inl rfl)⟩

theorem congr (h : Staged todo closing a) (hflushing : a'.mailbox.flushing = a.mailbox.flushing)
    (hstatus : a'.status = a.status) : Staged todo closing a' where
  legal := h.legal
  marked := by rw [h.marked, hflushing]
  running := by
    rw [hstatus]
    exact h.running
  stopped := by
    rw [hstatus]
    exact h.stopped

theorem mono {closing' : Prop} (h : Staged todo closing a) (himp : closing → closing') :
    Staged todo closing' a :=
  { h with stopped := fun x hx hfinal => (h.stopped x hx hfinal).imp_right himp }

/-- Nothing is to be done for an actor that is open and not at work. -/
theorem eq_nil (h : Staged todo False a) (hidle : a.mailbox.flushing = false)
    (hopen : a.status ≠ .stopped) : todo = [] := by
  rcases h.legal.cases with hnil | hdrain | ⟨x, hx, hfinal⟩
  · exact hnil
  · rw [h.marked, hidle] at hdrain
    cases hdrain
  · exact absurd ((h.stopped x hx hfinal).resolve_right id) hopen

/-- A stage that says nothing about its actor gives way to such stages. -/
theorem sidestep (h : Staged (x :: rest) closing a) (hx : x = .aside ∨ x = .effects)
    (hturns : x.Turns ys) (hys : ∀ y ∈ ys, y = .aside ∨ y = .effects) :
    Staged (ys ++ rest) closing a := by
  have hmute : ∀ {y : Stage}, y = .aside ∨ y = .effects → y ≠ .drain ∧ ¬y.Active ∧ ¬y.Final := by
    rintro y (rfl | rfl) <;> simp [Stage.Active, Stage.Final]
  refine ⟨legal_turns h.legal hturns, ?_, fun y hy hactive => ?_, fun y hy hfinal => ?_⟩
  · rw [← h.marked, List.mem_append, List.mem_cons, or_iff_right, or_iff_right]
    · exact fun heq => (hmute hx).1 heq.symm
    · exact fun hmem => (hmute (hys _ hmem)).1 rfl
  · rcases List.mem_append.mp hy with hy | hy
    · exact absurd hactive (hmute (hys y hy)).2.1
    · exact h.running y (List.mem_cons_of_mem _ hy) hactive
  · rcases List.mem_append.mp hy with hy | hy
    · exact absurd hfinal (hmute (hys y hy)).2.2
    · exact h.stopped y (List.mem_cons_of_mem _ hy) hfinal

/-- A stage of an actor that is wound up gives way to such stages. -/
theorem wound (h : Staged (x :: rest) closing a) (hx : x.Final) (hturns : x.Turns ys)
    (hstatus : a'.status = .stopped) (hflushing : a'.mailbox.flushing = a.mailbox.flushing) :
    Staged (ys ++ rest) False a' where
  legal := legal_turns h.legal hturns
  marked := by
    rw [hflushing, ← h.marked, List.mem_append, List.mem_cons, or_iff_right, or_iff_right]
    · rintro rfl
      simp [Stage.Final] at hx
    · exact fun hmem => absurd (hx.turns hturns _ hmem) (by simp [Stage.Final])
  running y hy hactive := by
    rcases List.mem_append.mp hy with hy | hy
    · exact absurd hactive (hx.turns hturns y hy).not_active
    · rcases hx.below h.legal y hy with rfl | hfinal
      · simp [Stage.Active] at hactive
      · exact absurd hactive hfinal.not_active
  stopped _ _ _ := .inl hstatus

end Staged

/-! ## Actors in a delivery -/

/-- What holds of an actor while `frames` are all that is still to be done: its mailbox is kept, the
frames agree with it, and those that work with its snapshot have the one that it has. -/
structure Attended (closing : Prop) (frames : List Frame) (s : Session) (a : Actor) : Prop where
  kept : a.mailbox.Kept
  staged : Staged (stages s frames) closing a
  current : ∀ f ∈ frames, ∀ snapshot, f.holds s = some snapshot → snapshot = a.snapshot

namespace Attended

variable {closing closing' : Prop} {f : Frame} {xs rest frames : List Frame} {s : Session} {x : Stage}
  {a a' : Actor}

theorem mono (h : Attended closing frames s a) (himp : closing → closing') :
    Attended closing' frames s a :=
  { h with staged := h.staged.mono himp }

/-- An actor that has just been made. -/
theorem new (hnew : a.mailbox = {}) (hframes : ∀ g ∈ frames, g.stageOf s = none) :
    Attended closing frames s a where
  kept := hnew ▸ Mailbox.kept_new
  staged := by
    rw [stages_eq_nil hframes]
    exact .idle (by rw [hnew])
  current g hg snapshot hholds := by
    rw [Frame.holds_eq_none (hframes g hg)] at hholds
    cases hholds

/-- Frames that are not about an actor do not matter to it. -/
theorem apart (top : Option Frame) (h : Attended closing (top.toList ++ rest) s a)
    (htop : ∀ f, top = some f → f.stageOf s = none) (hxs : ∀ g ∈ xs, g.stageOf s = none) :
    Attended closing (xs ++ rest) s a where
  kept := h.kept
  staged := by
    have htop : ∀ g ∈ top.toList, g.stageOf s = none := fun g hg => htop g (Option.mem_toList.mp hg)
    have hstaged := h.staged
    rw [stages_append, stages_eq_nil htop] at hstaged
    rwa [stages_append, stages_eq_nil hxs]
  current g hg snapshot hholds := by
    rcases List.mem_append.mp hg with hg | hg
    · rw [Frame.holds_eq_none (hxs g hg)] at hholds
      cases hholds
    · exact h.current g (List.mem_append_right _ hg) snapshot hholds

/-- An actor that nothing else is to be done for. -/
theorem above (hkept : a.mailbox.Kept) (hstaged : Staged (stages s xs) closing a)
    (hxs : ∀ g ∈ xs, g.holds s = none) (hrest : ∀ g ∈ rest, g.stageOf s = none) :
    Attended closing (xs ++ rest) s a where
  kept := hkept
  staged := by rwa [stages_append, stages_eq_nil hrest, List.append_nil]
  current g hg snapshot hholds := by
    rcases List.mem_append.mp hg with hg | hg
    · rw [hxs g hg] at hholds
      cases hholds
    · rw [Frame.holds_eq_none (hrest g hg)] at hholds
      cases hholds

/-- The stages below the frame on top. -/
theorem staged_cons (h : Attended closing (f :: rest) s a) (hf : f.stage = some (s, x)) :
    Staged (x :: stages s rest) closing a := by
  have hstaged := h.staged
  rwa [stages_cons, Frame.stageOf_self hf] at hstaged

/-- Other frames take the place of the one on top. -/
theorem turn (h : Attended closing (f :: rest) s a) (hkept : a'.mailbox.Kept)
    (hstaged : Staged (stages s xs ++ stages s rest) closing' a')
    (hsnapshot : a'.snapshot = a.snapshot ∨ ∀ y ∈ stages s rest, y = .drain)
    (hxs : ∀ g ∈ xs, ∀ snapshot, g.holds s = some snapshot → snapshot = a'.snapshot) :
    Attended closing' (xs ++ rest) s a' where
  kept := hkept
  staged := by rwa [stages_append]
  current g hg snapshot hholds := by
    rcases List.mem_append.mp hg with hg | hg
    · exact hxs g hg snapshot hholds
    · rcases hsnapshot with hsame | hdrain
      · rw [hsame]
        exact h.current g (List.mem_cons_of_mem _ hg) snapshot hholds
      · rcases Frame.stage_of_holds hholds with hstage | hstage | hstage <;>
        · have hmem := hdrain _ (mem_stages.mpr ⟨g, hg, hstage⟩)
          cases hmem

end Attended

/-! ## Deliveries -/

namespace System

variable {sys sys₁ sys' : System} {s : Session} {a a' : Actor}

/-- Of the actors that there are one has changed at most, and new ones may have been made. -/
structure Alters (sys : System) (s : Session) (a' : Actor) (sys' : System) : Prop where
  sound : sys'.Sound
  next : sys.nextSession ≤ sys'.nextSession
  self : sys'.actor? s = some a'
  kept : ∀ t b, t ≠ s → sys.actor? t = some b → sys'.actor? t = some b
  added : ∀ t b, t ≠ s → sys'.actor? t = some b →
    sys.actor? t = some b ∨ sys.actor? t = none ∧ b.mailbox = {}

theorem alters_same (hsound : sys.Sound) (hactors : ∀ t, sys'.actor? t = sys.actor? t)
    (hnext : sys'.nextSession = sys.nextSession) (ha : sys.actor? s = some a) :
    sys.Alters s a sys' where
  sound := hsound.same hactors hnext
  next := Nat.le_of_eq hnext.symm
  self := (hactors s).trans ha
  kept t _ _ hb := (hactors t).trans hb
  added t _ _ hb := .inl ((hactors t).symm.trans hb)

theorem Quiet.alters (h : sys.Quiet sys') (hsound : sys.Sound) (ha : sys.actor? s = some a) :
    sys.Alters s a sys' := alters_same hsound h.actor? h.next ha

/-- An actor changes after others have been made. -/
theorem Thrives.alters (h : sys.Thrives sys₁) (hputs : sys₁.Puts s a' sys') (hsound : sys.Sound)
    (ha : sys.actor? s = some a) (hbecomes : a.Becomes a')
    (hsuits : a'.snapshot.Suits sys₁ (some s) a.logic) : sys.Alters s a' sys' where
  sound := h.sound.puts hputs (h.grown.kept s a ha) hbecomes hsuits
  next := Nat.le_trans h.grown.next (Nat.le_of_eq hputs.next.symm)
  self := hputs.self
  kept t b hne hb := (hputs.other hne).trans (h.grown.kept t b hb)
  added t b hne hb := by
    rcases h.grown.added t b ((hputs.other hne).symm.trans hb) with hold | ⟨hlate, hnew⟩
    · exact .inl hold
    · exact .inr ⟨hsound.actor_none hlate, hnew⟩

/-- An actor changes twice. -/
theorem Puts.alters_trans (hputs : sys.Puts s a sys₁) (h : sys₁.Alters s a' sys') :
    sys.Alters s a' sys' where
  sound := h.sound
  next := Nat.le_trans (Nat.le_of_eq hputs.next.symm) h.next
  self := h.self
  kept t b hne hb := h.kept t b hne ((hputs.other hne).trans hb)
  added t b hne hb := by
    have hadded := h.added t b hne hb
    rwa [hputs.other hne] at hadded

/-- An actor changes in what its snapshot does not depend on. -/
theorem Puts.alters (hputs : sys.Puts s a' sys') (hsound : sys.Sound)
    (ha : sys.actor? s = some a) (hbecomes : a.Becomes a') (hsame : a'.snapshot = a.snapshot) :
    sys.Alters s a' sys' :=
  hsound.thrives.alters hputs hsound ha hbecomes (hsame ▸ hsound.suits s a ha)

end System

namespace Delivery

/-- The actor that is closed next. -/
def closing : List Frame → Option Session
  | .halt s :: _ => some s
  | _ => none

theorem closing_cons {f : Frame} (rest : List Frame) (h : ∀ s, f ≠ .halt s) :
    closing (f :: rest) = none := by
  cases f with
  | halt s => exact absurd rfl (h s)
  | _ => rfl

/-- What holds of a system while `frames` are all that is still to be done, if `next` is the actor
that is closed next. -/
structure Orderly (next : Option Session) (sys : System) (frames : List Frame) : Prop where
  system : sys.Sound
  known : ∀ f ∈ frames, ∀ s x, f.stage = some (s, x) → ∃ a, sys.actor? s = some a
  attended : ∀ s a, sys.actor? s = some a → Attended (next = some s) frames s a

/-- What holds at any time. -/
def Sound (d : Delivery) : Prop := Orderly (closing d.frames) d.system d.frames

namespace Orderly

variable {next next' : Option Session} {sys sys' : System} {top : Option Frame} {f : Frame}
  {xs rest frames : List Frame} {s : Session} {x : Stage} {a a' : Actor}

theorem mono (h : Orderly none sys frames) (next : Option Session) : Orderly next sys frames :=
  { h with attended := fun s a ha => (h.attended s a ha).mono (by simp) }

theorem quiet (h : Orderly next sys frames) (hquiet : sys.Quiet sys') :
    Orderly next sys' frames where
  system := h.system.quiet hquiet
  known g hg s x hstage := by
    obtain ⟨a, ha⟩ := h.known g hg s x hstage
    exact ⟨a, (hquiet.actor? s).trans ha⟩
  attended s a ha := h.attended s a ((hquiet.actor? s).symm.trans ha)

/-- Who does not exist has nothing to be done. -/
theorem unknown (h : Orderly next sys frames) (hs : sys.actor? s = none) :
    ∀ g ∈ frames, g.stageOf s = none := by
  intro g hg
  cases hstage : g.stageOf s with
  | none => rfl
  | some x =>
      obtain ⟨a, ha⟩ := h.known g hg s x (Frame.stage_of_stageOf hstage)
      rw [hs] at ha
      cases ha

/-- Actors are made, and frames that are about nobody come and go. -/
theorem grow (top : Option Frame) (h : Orderly none sys (top.toList ++ rest))
    (htop : ∀ f, top = some f → f.stage = none) (hthrives : sys.Thrives sys')
    (hxs : ∀ g ∈ xs, g.stage = none) :
    Orderly none sys' (xs ++ rest) where
  system := hthrives.sound
  known g hg s x hstage := by
    rcases List.mem_append.mp hg with hg | hg
    · rw [hxs g hg] at hstage
      cases hstage
    · obtain ⟨a, ha⟩ := h.known g (List.mem_append_right _ hg) s x hstage
      exact ⟨a, hthrives.grown.kept s a ha⟩
  attended t b hb := by
    have hnone : ∀ g ∈ xs, g.stageOf t = none := fun g hg => by rw [Frame.stageOf, hxs g hg]; rfl
    rcases hthrives.grown.added t b hb with hold | ⟨hlate, hnew⟩
    · exact (h.attended t b hold).apart top (fun f hf => by rw [Frame.stageOf, htop f hf]; rfl) hnone
    · refine .new hnew fun g hg => ?_
      rcases List.mem_append.mp hg with hg | hg
      · exact hnone g hg
      · exact h.unknown (h.system.actor_none hlate) g (List.mem_append_right _ hg)

/-- An actor goes on with its work, and maybe others are made. -/
theorem work (top : Option Frame) (h : Orderly next sys (top.toList ++ rest))
    (hnext : ∀ t, next = some t → t = s)
    (htop : ∀ f, top = some f → ∀ t y, f.stage = some (t, y) → t = s)
    (hxs : ∀ g ∈ xs, ∀ t y, g.stage = some (t, y) → t = s) (halters : sys.Alters s a' sys')
    (hself : Attended (next' = some s) (xs ++ rest) s a') : Orderly next' sys' (xs ++ rest) where
  system := halters.sound
  known g hg t y hstage := by
    by_cases hts : t = s
    · exact ⟨a', hts ▸ halters.self⟩
    · rcases List.mem_append.mp hg with hg | hg
      · exact absurd (hxs g hg t y hstage) hts
      · obtain ⟨b, hb⟩ := h.known g (List.mem_append_right _ hg) t y hstage
        exact ⟨b, halters.kept t b hts hb⟩
  attended t b hb := by
    by_cases hts : t = s
    · rw [hts, halters.self] at hb
      cases hb
      rw [hts]
      exact hself
    · -- no frame that is new or gone concerns anybody else
      have hother : ∀ g : Frame, (∀ u y, g.stage = some (u, y) → u = s) → g.stageOf t = none := by
        intro g hg
        cases hstage : g.stageOf t with
        | none => rfl
        | some y => exact absurd (hg t y (Frame.stage_of_stageOf hstage)) hts
      have hnone : ∀ g ∈ xs, g.stageOf t = none := fun g hg => hother g (hxs g hg)
      rcases halters.added t b hts hb with hold | ⟨hunknown, hnew⟩
      · have hattended : Attended (next' = some t) (top.toList ++ rest) t b :=
          (h.attended t b hold).mono fun heq => absurd (hnext t heq) hts
        exact hattended.apart top (fun f hf => hother f (htop f hf)) hnone
      · refine .new hnew fun g hg => ?_
        rcases List.mem_append.mp hg with hg | hg
        · exact hnone g hg
        · exact h.unknown hunknown g (List.mem_append_right _ hg)

/-- The work of the frame on top goes on. -/
theorem turn (h : Orderly next sys (f :: rest)) (hnext : ∀ t, next = some t → t = s)
    (hf : f.stage = some (s, x)) (ha : sys.actor? s = some a) (halters : sys.Alters s a' sys')
    (hxs : ∀ g ∈ xs, ∀ t y, g.stage = some (t, y) → t = s) (hkept : a'.mailbox.Kept)
    (hstaged : Staged (stages s xs ++ stages s rest) (next' = some s) a')
    (hsnapshot : a'.snapshot = a.snapshot ∨ ∀ y ∈ stages s rest, y = .drain)
    (hholds : ∀ g ∈ xs, ∀ snapshot, g.holds s = some snapshot → snapshot = a'.snapshot) :
    Orderly next' sys' (xs ++ rest) := by
  refine Orderly.work (some f) h hnext (fun g hg t y hstage => ?_) hxs halters
    ((h.attended s a ha).turn hkept hstaged hsnapshot hholds)
  cases hg
  rw [hf] at hstage
  cases hstage
  rfl

/-- The stages below that of the frame on top. -/
theorem staged (h : Orderly next sys (f :: rest)) (hf : f.stage = some (s, x))
    (ha : sys.actor? s = some a) : Staged (x :: stages s rest) (next = some s) a :=
  (h.attended s a ha).staged_cons hf

/-- Nothing else is to be done for an actor whose mailbox is worked off on top. -/
theorem below_drain (h : Orderly next sys (.drain s :: rest)) (ha : sys.actor? s = some a) :
    stages s rest = [] := (h.staged (f := .drain s) rfl ha).legal

/-- What an effect has led to goes on, or gives way. -/
theorem sidestep (h : Orderly none sys (f :: rest)) (hf : f.stage = some (s, x))
    (hx : x = .aside ∨ x = .effects) (hturns : x.Turns (stages s xs))
    (hxs : ∀ g ∈ xs, ∃ y, g.stage = some (s, y) ∧ (y = .aside ∨ y = .effects))
    (ha : sys.actor? s = some a) (halters : sys.Alters s a' sys') (hkept : a'.mailbox.Kept)
    (hflushing : a'.mailbox.flushing = a.mailbox.flushing) (hstatus : a'.status = a.status)
    (hsnapshot : a'.snapshot = a.snapshot) : Orderly none sys' (xs ++ rest) := by
  have hstages : ∀ y ∈ stages s xs, y = .aside ∨ y = .effects := by
    intro y hy
    obtain ⟨g, hg, hstage⟩ := mem_stages.mp hy
    obtain ⟨y', hstage', hy'⟩ := hxs g hg
    rw [hstage] at hstage'
    cases hstage'
    exact hy'
  refine h.turn (by simp) hf ha halters (fun g hg t y hstage => ?_) hkept
    (((h.staged hf ha).sidestep hx hturns hstages).congr hflushing hstatus) (.inl hsnapshot)
    fun g hg snapshot hholds => ?_
  · obtain ⟨y', hstage', -⟩ := hxs g hg
    rw [hstage] at hstage'
    cases hstage'
    rfl
  · -- frames that work with a snapshot are at another stage
    obtain ⟨y, hstage, hy⟩ := hxs g hg
    rcases Frame.stage_of_holds hholds with h | h | h <;>
    · rw [hstage] at h
      cases h
      simp at hy

/-- The same when nothing happens to the actors. -/
theorem sidestep_same (h : Orderly none sys (f :: rest)) (hf : f.stage = some (s, x))
    (hx : x = .aside ∨ x = .effects) (hturns : x.Turns (stages s xs))
    (hxs : ∀ g ∈ xs, ∃ y, g.stage = some (s, y) ∧ (y = .aside ∨ y = .effects))
    (hactors : ∀ t, sys'.actor? t = sys.actor? t) (hnext : sys'.nextSession = sys.nextSession) :
    Orderly none sys' (xs ++ rest) := by
  obtain ⟨a, ha⟩ := h.known f List.mem_cons_self s x hf
  exact h.sidestep hf hx hturns hxs ha (System.alters_same h.system hactors hnext ha)
    (h.attended s a ha).kept rfl rfl rfl

/-- An actor goes on being wound up. -/
theorem wound (h : Orderly none sys (f :: rest)) (hf : f.stage = some (s, x)) (hx : x.Final)
    (hturns : x.Turns (stages s xs)) (hxs : ∀ g ∈ xs, ∀ t y, g.stage = some (t, y) → t = s)
    (hholds : ∀ g ∈ xs, g.holds s = none) (ha : sys.actor? s = some a)
    (halters : sys.Alters s a' sys') (hmailbox : a'.mailbox = a.mailbox)
    (hsnapshot : a'.snapshot = a.snapshot) : Orderly none sys' (xs ++ rest) := by
  have hstaged := h.staged hf ha
  have hstopped : a'.status = .stopped := by
    rw [Actor.status, hmailbox]
    exact (hstaged.stopped x List.mem_cons_self hx).resolve_right (by simp)
  have hkept : a'.mailbox.Kept := hmailbox ▸ (h.attended s a ha).kept
  refine h.turn (by simp) hf ha halters hxs hkept
    ((hstaged.wound hx hturns hstopped (by rw [hmailbox])).mono False.elim) (.inl hsnapshot)
    fun g hg snapshot hsome => ?_
  rw [hholds g hg] at hsome
  cases hsome

/-- The same when nothing happens to the actors. -/
theorem wound_same (h : Orderly none sys (f :: rest)) (hf : f.stage = some (s, x)) (hx : x.Final)
    (hturns : x.Turns (stages s xs)) (hxs : ∀ g ∈ xs, ∀ t y, g.stage = some (t, y) → t = s)
    (hholds : ∀ g ∈ xs, g.holds s = none) (hactors : ∀ t, sys'.actor? t = sys.actor? t)
    (hnext : sys'.nextSession = sys.nextSession) : Orderly none sys' (xs ++ rest) := by
  obtain ⟨a, ha⟩ := h.known f List.mem_cons_self s x hf
  exact h.wound hf hx hturns hxs hholds ha (System.alters_same h.system hactors hnext ha) rfl rfl

end Orderly

end Delivery

end Statechart
