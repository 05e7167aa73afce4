import Statechart.Proofs.Discipline

/-!
# Moves keep deliveries sound

A call first leaves the frame that it was made from, and is answered then; both keep the order of
what is still to be done (`Calls.orderly`, `Answered.orderly`). So does every other move
(`Moves.orderly`).
-/

namespace Statechart.Delivery

variable {sys sys' : System} {rest frames xs : List Frame}

/-! ## Calls -/

/-- To make a call takes a frame a step further. -/
theorem Calls.orderly {top : Option Frame} {t : Session} {c : Call} {below : List Frame}
    (hcalls : Calls sys top t c below) (hquiet : sys.Quiet sys')
    (hd : Orderly none sys (top.toList ++ rest)) : Orderly none sys' (below ++ rest) := by
  have hactors := hquiet.actor?
  have hnext := hquiet.next
  cases hcalls with
  | outside => exact hd.grow none (by simp) (hd.system.thrives.quiet hquiet) (by simp)
  -- a send leaves a frame behind that looks at the answer
  | @send s t recipient event id rest' =>
      have hd : Orderly none sys (.effects s _ :: rest) := hd
      refine hd.sidestep_same (s := s) rfl (.inr rfl) ?_ ?_ hactors hnext
      · simpa [stages_cons, Frame.stageOf, Frame.stage] using Stage.Turns.interrupted
      · simp [Frame.stage]
  | @start s t rest' =>
      have hd : Orderly none sys (.effects s _ :: rest) := hd
      refine hd.sidestep_same (s := s) rfl (.inr rfl) ?_ ?_ hactors hnext
      · simpa [stages_cons, Frame.stageOf, Frame.stage] using Stage.Turns.advanced
      · simp [Frame.stage]
  | @stop s t rest' =>
      have hd : Orderly none sys (.effects s _ :: rest) := hd
      refine hd.sidestep_same (s := s) rfl (.inr rfl) ?_ ?_ hactors hnext
      · simpa [stages_cons, Frame.stageOf, Frame.stage] using Stage.Turns.advanced
      · simp [Frame.stage]
  | stopAll =>
      exact hd.grow (some _) (by simp [Frame.stage]) (hd.system.thrives.quiet hquiet)
        (by simp [Frame.stage])
  | @tell s t event hparent =>
      have hd : Orderly none sys ([.tellParent s event] ++ rest) := hd
      have hturns : Stage.Turns .tell (stages s []) := .told
      exact hd.wound_same (s := s) rfl (by simp [Stage.Final]) hturns (by simp) (by simp) hactors hnext
  | @script owner name t c next =>
      cases owner with
      | none =>
          exact hd.grow (some _) (by simp [Frame.stage]) (hd.system.thrives.quiet hquiet)
            (by simp [Frame.stage])
      | some s =>
          have hd : Orderly none sys (.script (some s) _ :: rest) := hd
          refine hd.sidestep_same (s := s) rfl (.inl rfl) ?_ ?_ hactors hnext
          · simpa [stages_cons, Frame.stageOf, Frame.stage] using Stage.Turns.resumed
          · simp [Frame.stage]
  | fire =>
      exact hd.grow (some _) (by simp [Frame.stage]) (hd.system.thrives.quiet hquiet)
        (by simp [Frame.stage])

/-- Nobody has anything to do for an actor that is open and not at work. -/
theorem Orderly.unattended (hd : Orderly none sys frames) {t : Session} {a : Actor}
    (ha : sys.actor? t = some a) (hidle : a.mailbox.flushing = false)
    (hopen : a.status ≠ .stopped) : ∀ g ∈ frames, g.stageOf t = none := by
  have hstaged := (hd.attended t a ha).staged
  have hnil := (hstaged.mono (by simp)).eq_nil hidle hopen
  exact List.filterMap_eq_nil_iff.mp hnil

/-- A mailbox turns while its actor goes on with what it does. -/
theorem Orderly.post (hd : Orderly none sys frames) {t : Session} {a : Actor} {c : Call}
    {m : Mailbox} (ha : sys.actor? t = some a) (hturns : a.mailbox.Turns c m)
    (hsettled : m.Settled) (hputs : sys.Puts t { a with mailbox := m } sys')
    (hxs : ∀ g ∈ xs, g.stage = none) : Orderly none sys' (xs ++ frames) := by
  have hattended := hd.attended t a ha
  have hkept := hattended.kept
  have hnone : ∀ g ∈ xs, g.stageOf t = none := fun g hg => by
    rw [Frame.stageOf, hxs g hg]
    rfl
  refine hd.work none (by simp) (by simp) (fun g hg u y hstage => ?_)
    (hputs.alters hd.system ha rfl rfl) ?_
  · rw [hxs g hg] at hstage
    cases hstage
  · have hpost : Attended (none = some t) frames t { a with mailbox := m } := by
      refine ⟨hkept.turns hturns hsettled, ?_, hattended.current⟩
      rcases hturns.status with hstatus | ⟨-, hnew, -⟩
      · exact hattended.staged.congr hturns.flushing hstatus
      · have hidle := hkept.unopened hnew
        have hopen : a.status ≠ .stopped := by simp [Actor.status, hnew]
        rw [stages_eq_nil (hd.unattended ha hidle hopen)]
        exact .idle (hturns.flushing.trans hidle)
    exact hpost.apart none (by simp) hnone

/-- An answer to a call comes before everything else. -/
theorem Answered.orderly {t : Session} {c : Call} (h : Answered sys t c sys' xs)
    (hd : Orderly none sys frames) : Orderly (closing (xs ++ frames)) sys' (xs ++ frames) := by
  have hplain : ∀ {xs : List Frame}, xs = [] ∨ xs = [.leave] → ∀ g ∈ xs, g.stage = none := by
    rintro _ (rfl | rfl) <;> simp [Frame.stage]
  cases h with
  | refused hquiet hframes _ =>
      exact (hd.grow none (by simp) (hd.system.thrives.quiet hquiet) (hplain hframes)).mono _
  | posted ha hturns hsettled hputs hframes =>
      exact (hd.post ha hturns hsettled hputs (hplain hframes)).mono _
  | @claimed c a m m' sys' ha hturns hbegin hputs =>
      obtain ⟨hkept, hflushing, hidle⟩ := (hd.attended t a ha).kept.claim hturns hbegin
      have hopen := hturns.open (Mailbox.running_of_beginFlush hbegin)
      have hstages : stages t [.drain t, .leave] = [.drain] := by
        simp [stages_cons, Frame.stageOf, Frame.stage]
      exact hd.work none (by simp) (by simp) (by simp [Frame.stage])
        (hputs.alters hd.system ha rfl rfl) (.above hkept (hstages ▸ .waiting hflushing)
          (by simp [Frame.holds]) (hd.unattended ha hidle hopen))
  | @halted a sys' ha hstatus hputs =>
      have hkept := (hd.attended t a ha).kept
      have hidle := hkept.unopened hstatus
      have hopen : a.status ≠ .stopped := by simp [hstatus]
      have halters : sys.Alters t { a with snapshot := a.snapshot.stopped } sys' :=
        hd.system.thrives.alters hputs hd.system ha rfl (hd.system.suits t a ha).stopped
      have hstages : stages t [.halt t, .finish t, .reply (.ok ())] = [.halt, .finish] := by
        simp [stages_cons, Frame.stageOf, Frame.stage]
      refine hd.work none (by simp) (by simp) (by simp [Frame.stage]) halters
        (.above hkept ?_ (by simp [Frame.holds]) (hd.unattended ha hidle hopen))
      rw [hstages]
      exact .closed hidle rfl

/-! ## Effects -/

section Effects

variable {s : Session} {a : Actor} {f : Frame} {e : Effect} {effects : List Effect} {event : Event}

theorem Orderly.resumed (hd : Orderly none sys (f :: rest)) (hf : f.Aside s)
    (hquiet : sys.Quiet sys') (hxs : xs = [] ∨ ∃ g : Frame, g.Aside s ∧ xs = [g]) :
    Orderly none sys' (xs ++ rest) := by
  rcases hxs with rfl | ⟨g, hg, rfl⟩
  · exact hd.sidestep_same hf (.inl rfl) .returned (by simp) hquiet.actor? hquiet.next
  · have hstages : stages s [g] = [.aside] := by
      rw [stages_cons, Frame.stageOf_self hg]
      rfl
    refine hd.sidestep_same hf (.inl rfl) (hstages ▸ .resumed) ?_ hquiet.actor? hquiet.next
    simpa using ⟨_, hg, Or.inl rfl⟩

theorem Orderly.posted (hd : Orderly none sys (f :: rest)) (hf : f.Aside s)
    (ha : sys.actor? s = some a)
    (hputs : sys.Puts s { a with mailbox := (a.mailbox.enqueue event true).1 } sys') :
    Orderly none sys' rest := by
  obtain ⟨hflushing, hstatus⟩ := Mailbox.enqueue_flushing a.mailbox event true
  have hself := hd.attended s a ha
  have hkept : (a.mailbox.enqueue event true).1.Kept := by
    have hstaged := hd.staged hf ha
    have hbusy : a.mailbox.flushing = true :=
      hstaged.marked.mp (List.mem_cons_of_mem _ hstaged.legal.below_aside)
    exact hself.kept.turns (.sent event true) (Mailbox.settled_enqueue event true (.inl hbusy))
  show Orderly none sys' ([] ++ rest)
  exact hd.sidestep hf (.inl rfl) .returned (by simp) ha (hputs.alters hd.system ha rfl rfl) hkept
    hflushing hstatus rfl

theorem Orderly.exhausted (hd : Orderly none sys (.effects s [] :: rest))
    (hquiet : sys.Quiet sys') : Orderly none sys' rest := by
  have hturns : Stage.effects.Turns (stages s []) := .exhausted
  exact hd.sidestep_same (f := .effects s []) rfl (.inr rfl) hturns (by simp) hquiet.actor?
    hquiet.next

theorem Orderly.performed (hd : Orderly none sys (.effects s (e :: effects) :: rest))
    (h : sys.Schedules s sys') : Orderly none sys' ([.effects s effects] ++ rest) := by
  have hstages : stages s [.effects s effects] = [.effects] := by
    simp [stages_cons, Frame.stageOf, Frame.stage]
  exact hd.sidestep_same (f := .effects s (e :: effects)) rfl (.inr rfl) (hstages ▸ .advanced)
    (by simp [Frame.stage]) h.actor? h.next

theorem Orderly.interrupted {g : Frame} (hd : Orderly none sys (.effects s (e :: effects) :: rest))
    (hg : g.Aside s) : Orderly none sys ([g, .effects s effects] ++ rest) := by
  have heffects : stages s [.effects s effects] = [.effects] := by
    simp [stages_cons, Frame.stageOf, Frame.stage]
  have hstages : stages s [g, .effects s effects] = [.aside, .effects] := by
    rw [stages_cons, Frame.stageOf_self hg, heffects]
    rfl
  refine hd.sidestep_same (f := .effects s (e :: effects)) rfl (.inr rfl)
    (hstages ▸ .interrupted) (fun g' hg' => ?_) (fun _ => rfl) rfl
  rcases List.mem_cons.mp hg' with rfl | hg'
  · exact ⟨_, hg, .inl rfl⟩
  · rw [List.mem_singleton.mp hg']
    exact ⟨_, rfl, .inr rfl⟩

end Effects

/-! ## Working off a mailbox -/

section Work

variable {s : Session} {a a' : Actor} {m : Mailbox} {event : Event} {sys₀ sys₁ : System}
  {next : Snapshot} {effects : List Effect} {failure : Option ActorError} {kept : List Session}

/-- The frame that works off a mailbox gives way to what an event leads to, or ends. -/
theorem Orderly.drained (hd : Orderly none sys (.drain s :: rest)) (ha : sys.actor? s = some a)
    (halters : sys.Alters s a' sys') (hxs : ∀ g ∈ xs, ∀ t y, g.stage = some (t, y) → t = s)
    (hkept : a'.mailbox.Kept) (hstaged : Staged (stages s xs) False a')
    (hholds : ∀ g ∈ xs, ∀ snapshot, g.holds s = some snapshot → snapshot = a'.snapshot) :
    Orderly none sys' (xs ++ rest) := by
  have hbelow := hd.below_drain ha
  refine hd.turn (by simp) rfl ha halters hxs hkept ?_ (.inr ?_) hholds
  · rw [hbelow, List.append_nil]
    exact hstaged.mono False.elim
  · rw [hbelow]
    simp

/-- What is left in a mailbox that is being worked off. -/
theorem Orderly.take (hd : Orderly none sys (.drain s :: rest)) (ha : sys.actor? s = some a)
    (hnext : a.mailbox.next = (m, some event)) :
    m.Kept ∧ m.flushing = true ∧ m.status = .running := by
  have hflushing := (hd.staged (f := .drain s) rfl ha).marked.mp List.mem_cons_self
  exact (hd.attended s a ha).kept.take hflushing hnext

theorem Orderly.emptied (hd : Orderly none sys (.drain s :: rest)) (ha : sys.actor? s = some a)
    (hnext : a.mailbox.next = (m, none)) (hputs : sys.Puts s { a with mailbox := m } sys') :
    Orderly none sys' rest := by
  obtain ⟨hkept, hidle⟩ := (hd.attended s a ha).kept.empty hnext
  have halters := hputs.alters hd.system ha rfl rfl
  show Orderly none sys' ([] ++ rest)
  exact hd.drained ha halters (by simp) hkept (.idle hidle) (by simp)

theorem Orderly.passed (hd : Orderly none sys (.drain s :: rest)) (ha : sys.actor? s = some a)
    (hnext : a.mailbox.next = (m, some event)) (hputs : sys.Puts s { a with mailbox := m } sys') :
    Orderly none sys' ([.drain s] ++ rest) := by
  obtain ⟨hkept, hflushing, -⟩ := hd.take ha hnext
  have hstages : stages s [.drain s] = [.drain] := by
    simp [stages_cons, Frame.stageOf, Frame.stage]
  exact hd.drained ha (hputs.alters hd.system ha rfl rfl) (by simp [Frame.stage]) hkept
    (hstages ▸ .waiting hflushing) (by simp [Frame.holds])

theorem Orderly.begun (hd : Orderly none sys (.drain s :: rest)) (ha : sys.actor? s = some a)
    (hnext : a.mailbox.next = (m, some event))
    (hputs : sys.Puts s { a with mailbox := m, pending := [] } sys') :
    Orderly none sys' ([.effects s a.pending, .launch s a.snapshot, .drain s] ++ rest) := by
  obtain ⟨hkept, hflushing, hrunning⟩ := hd.take ha hnext
  have hstages : stages s [.effects s a.pending, .launch s a.snapshot, .drain s] =
      [.effects, .launch, .drain] := by
    simp [stages_cons, Frame.stageOf, Frame.stage]
  exact hd.drained ha (hputs.alters hd.system ha rfl rfl) (by simp [Frame.stage]) hkept
    (hstages ▸ .begun hflushing hrunning) (by simp [Frame.holds])

/-- A stop changes its actor, once others may have been made. -/
theorem Ends.alters (h : Ends sys₀ { a with mailbox := m } sys₁ next effects) (hsound : sys.Sound)
    (ha : sys.actor? s = some a) (htook : sys.Puts s { a with mailbox := m } sys₀)
    {m' : Mailbox} (hputs : sys₁.Puts s { a with mailbox := m', snapshot := next } sys') :
    sys.Alters s { a with mailbox := m', snapshot := next } sys' := by
  have hsound₀ := (htook.alters hsound ha rfl rfl).sound
  obtain ⟨hthrives, hsuits, -⟩ := h.spec hsound₀ htook.self
  have hsuits₁ : next.Suits sys₁ (some s) a.logic := hsuits
  exact htook.alters_trans (hthrives.alters hputs hsound₀ htook.self rfl hsuits₁)

theorem Orderly.stopped (hd : Orderly none sys (.drain s :: rest)) (ha : sys.actor? s = some a)
    (hnext : a.mailbox.next = (m, some event)) (htook : sys.Puts s { a with mailbox := m } sys₀)
    (hends : Ends sys₀ { a with mailbox := m } sys₁ next effects)
    (hputs : sys₁.Puts s { a with mailbox := m.close, snapshot := next } sys') :
    Orderly none sys'
      ([.effects s effects, .halt s, .finish s, .keep kept, .drain s] ++ rest) := by
  obtain ⟨hkept, hflushing, -⟩ := hd.take ha hnext
  have hstages : stages s [.effects s effects, .halt s, .finish s, .keep kept, .drain s] =
      [.effects, .halt, .finish, .drain] := by
    simp [stages_cons, Frame.stageOf, Frame.stage]
  exact hd.drained ha (hends.alters hd.system ha htook hputs) (by simp [Frame.stage]) hkept.close
    (hstages ▸ .ending hflushing rfl) (by simp [Frame.holds])

/-- An event changes its actor, once others may have been made. -/
theorem Reacts.alters (h : Reacts sys₀ { a with mailbox := m } event sys₁ next effects failure)
    (hsound : sys.Sound) (ha : sys.actor? s = some a)
    (htook : sys.Puts s { a with mailbox := m } sys₀)
    (hputs : sys₁.Puts s { a with mailbox := m, snapshot := next } sys') :
    sys.Alters s { a with mailbox := m, snapshot := next } sys' := by
  have hsound₀ := (htook.alters hsound ha rfl rfl).sound
  obtain ⟨hthrives, hsuits, -⟩ := h.spec hsound₀ htook.self
  have hsuits₁ : next.Suits sys₁ (some s) a.logic := hsuits
  exact htook.alters_trans (hthrives.alters hputs hsound₀ htook.self rfl hsuits₁)

theorem Orderly.reacted (hd : Orderly none sys (.drain s :: rest)) (ha : sys.actor? s = some a)
    (hnext : a.mailbox.next = (m, some event)) (htook : sys.Puts s { a with mailbox := m } sys₀)
    (hreacts : Reacts sys₀ { a with mailbox := m } event sys₁ next effects failure)
    (hputs : sys₁.Puts s { a with mailbox := m, snapshot := next } sys') :
    Orderly none sys' ([.effects s effects, .notify a.observers (.next next),
      .settle s next failure, .keep kept, .drain s] ++ rest) := by
  obtain ⟨hkept, hflushing, hrunning⟩ := hd.take ha hnext
  have hstages : stages s [.effects s effects, .notify a.observers (.next next),
      .settle s next failure, .keep kept, .drain s] = [.effects, .settle, .drain] := by
    simp [stages_cons, Frame.stageOf, Frame.stage]
  exact hd.drained ha (hreacts.alters hd.system ha htook hputs) (by simp [Frame.stage]) hkept
    (hstages ▸ .reacted hflushing hrunning) (by simp [Frame.holds])

/-- The snapshot to be launched is the one that the actor has. -/
theorem Orderly.launching {snapshot : Snapshot} (hd : Orderly none sys (.launch s snapshot :: rest))
    (ha : sys.actor? s = some a) : snapshot = a.snapshot :=
  (hd.attended s a ha).current _ List.mem_cons_self snapshot (if_pos rfl)

/-- A launch changes its actor, once others may have been made. -/
theorem Launches.alters {snapshot : Snapshot}
    (h : Launches sys a snapshot sys₁ next effects failure) (hsound : sys.Sound)
    (ha : sys.actor? s = some a) (hcurrent : snapshot = a.snapshot)
    (hputs : sys₁.Puts s { a with snapshot := next } sys') :
    sys.Alters s { a with snapshot := next } sys' := by
  obtain ⟨hthrives, hsuits, -⟩ := h.spec hsound (hcurrent ▸ hsound.suits s a ha)
  exact hthrives.alters hputs hsound ha rfl hsuits

theorem Orderly.launched {snapshot : Snapshot} (hd : Orderly none sys (.launch s snapshot :: rest))
    (ha : sys.actor? s = some a) (hlaunches : Launches sys a snapshot sys₁ next effects failure)
    (hputs : sys₁.Puts s { a with snapshot := next } sys') :
    Orderly none sys' ([.effects s effects, .notify a.observers (.next next),
      .settle s next failure] ++ rest) := by
  have halters := hlaunches.alters hd.system ha (hd.launching ha) hputs
  obtain ⟨hbelow, hflushing, hrunning⟩ :=
    (hd.staged (f := .launch s snapshot) rfl ha).below_launch
  have hstages : stages s [.effects s effects, .notify a.observers (.next next),
      .settle s next failure] = [.effects, .settle] := by
    simp [stages_cons, Frame.stageOf, Frame.stage]
  refine hd.turn (by simp) rfl ha halters (by simp [Frame.stage]) (hd.attended s a ha).kept ?_
    (.inr (by simp [hbelow])) (by simp [Frame.holds])
  rw [hstages, hbelow]
  exact .reacted hflushing hrunning

end Work

/-! ## Winding up -/

section Windup

variable {s : Session} {a a' : Actor} {snapshot : Snapshot} {failure : Option ActorError}

theorem Orderly.settled (hd : Orderly none sys (.settle s snapshot failure :: rest))
    (ha : sys.actor? s = some a) (hquiet : sys.Quiet sys') : Orderly none sys' rest := by
  obtain ⟨hbelow, hflushing⟩ := (hd.staged (f := .settle s snapshot failure) rfl ha).below_settle
  show Orderly none sys' ([] ++ rest)
  refine hd.turn (by simp) rfl ha (hquiet.alters hd.system ha) (by simp)
    (hd.attended s a ha).kept ?_ (.inl rfl) (by simp)
  rw [hbelow]
  exact .waiting hflushing

theorem Orderly.done {event : Event} (hd : Orderly none sys (.settle s snapshot failure :: rest))
    (ha : sys.actor? s = some a) (hquiet : sys.Quiet sys') :
    Orderly (some s) sys' ([.halt s, .finish s, .tellParent s event] ++ rest) := by
  obtain ⟨hbelow, hflushing⟩ := (hd.staged (f := .settle s snapshot failure) rfl ha).below_settle
  have hstages : stages s [.halt s, .finish s, .tellParent s event] = [.halt, .finish, .tell] := by
    simp [stages_cons, Frame.stageOf, Frame.stage]
  refine hd.turn (by simp) rfl ha (hquiet.alters hd.system ha) (by simp [Frame.stage])
    (hd.attended s a ha).kept ?_ (.inl rfl) (by simp [Frame.holds])
  rw [hstages, hbelow]
  exact .done hflushing rfl

theorem Orderly.broken (hd : Orderly none sys (.settle s snapshot failure :: rest))
    (ha : sys.actor? s = some a) (hquiet : sys.Quiet sys') :
    Orderly (some s) sys' ([.halt s, .failed s snapshot failure] ++ rest) := by
  obtain ⟨hbelow, hflushing⟩ := (hd.staged (f := .settle s snapshot failure) rfl ha).below_settle
  have hcurrent : snapshot = a.snapshot :=
    (hd.attended s a ha).current _ List.mem_cons_self snapshot (if_pos rfl)
  have hstages : stages s [.halt s, .failed s snapshot failure] = [.halt, .failed] := by
    simp [stages_cons, Frame.stageOf, Frame.stage]
  refine hd.turn (by simp) rfl ha (hquiet.alters hd.system ha) (by simp [Frame.stage])
    (hd.attended s a ha).kept ?_ (.inl rfl) (by simp [Frame.holds, hcurrent])
  rw [hstages, hbelow]
  exact .broken hflushing rfl

theorem Orderly.halted (hd : Orderly (some s) sys (.halt s :: rest)) (ha : sys.actor? s = some a)
    (hputs : sys.Puts s { a with mailbox := a.mailbox.close } sys') :
    Orderly none sys' ([.stopAll a.snapshot.sessions, .retire s] ++ rest) := by
  have hstages : stages s [.stopAll a.snapshot.sessions, .retire s] = [.retire] := by
    simp [stages_cons, Frame.stageOf, Frame.stage]
  refine hd.turn (fun t ht => (Option.some.inj ht).symm) rfl ha (hputs.alters hd.system ha rfl rfl)
    (by simp [Frame.stage]) (hd.attended s a ha).kept.close ?_ (.inl rfl) (by simp [Frame.holds])
  rw [hstages]
  have hstaged := hd.staged (f := .halt s) rfl ha
  have hstopped : ({ a with mailbox := a.mailbox.close } : Actor).status = .stopped := rfl
  exact (hstaged.wound (.inl rfl) .halted hstopped rfl).mono False.elim

theorem Orderly.retired (hd : Orderly none sys (.retire s :: rest))
    (hactors : ∀ t, sys'.actor? t = sys.actor? t) (hnext : sys'.nextSession = sys.nextSession) :
    Orderly none sys' rest := by
  show Orderly none sys' ([] ++ rest)
  exact hd.wound_same (f := .retire s) (x := .retire) rfl (by simp [Stage.Final]) .retired
    (by simp) (by simp) hactors hnext

theorem Orderly.reported {before : List Frame} {event : Event}
    (hd : Orderly none sys (.failed s snapshot failure :: rest)) (hquiet : sys.Quiet sys')
    (hbefore : ∀ f ∈ before, f.Plain) :
    Orderly none sys' (before ++ [.tellParent s event] ++ rest) := by
  have hstages : stages s (before ++ [.tellParent s event]) = [.tell] := by
    rw [stages_append, stages_plain hbefore]
    simp [stages_cons, Frame.stageOf, Frame.stage]
  refine hd.wound_same (f := .failed s snapshot failure) (x := .failed) rfl (by simp [Stage.Final])
    (hstages ▸ .reported) (fun g hg t y hstage => ?_) (fun g hg => ?_) hquiet.actor? hquiet.next
  · rcases List.mem_append.mp hg with hg | hg
    · rw [(hbefore g hg).stage] at hstage
      cases hstage
    · rw [List.mem_singleton.mp hg] at hstage
      cases hstage
      rfl
  · rcases List.mem_append.mp hg with hg | hg
    · exact Frame.holds_eq_none ((hbefore g hg).stageOf s)
    · rw [List.mem_singleton.mp hg]
      rfl

theorem Orderly.untold {event : Event} (hd : Orderly none sys (.tellParent s event :: rest))
    (hquiet : sys.Quiet sys') : Orderly none sys' rest := by
  show Orderly none sys' ([] ++ rest)
  exact hd.wound_same (f := .tellParent s event) (x := .tell) rfl (by simp [Stage.Final]) .told
    (by simp) (by simp) hquiet.actor? hquiet.next

theorem Orderly.finished (hd : Orderly none sys (.finish s :: rest)) (ha : sys.actor? s = some a)
    (hputs : sys.Puts s { a with observers := [] } sys') :
    Orderly none sys' ([.notify a.observers .complete] ++ rest) := by
  have hstages : stages s [.notify a.observers .complete] = [] := by
    simp [stages_cons, Frame.stageOf, Frame.stage]
  exact hd.wound (f := .finish s) (x := .finish) rfl (by simp [Stage.Final])
    (hstages ▸ .finished) (by simp [Frame.stage]) (by simp [Frame.holds]) ha
    (hputs.alters hd.system ha rfl rfl) rfl rfl

end Windup

/-! ## All moves -/

/-- Calls are not made while an actor is about to be closed. -/
theorem Calls.closing_eq {top : Option Frame} {t : Session} {c : Call} {below : List Frame}
    (h : Calls sys top t c below) (hrest : top = none → rest = []) :
    closing (top.toList ++ rest) = none := by
  cases h with
  | outside =>
      rw [hrest rfl]
      rfl
  | _ => rfl

theorem closing_plain {top : Option Frame} (htop : ∀ f, top = some f → f.Plain)
    (hrest : top = none → rest = []) : closing (top.toList ++ rest) = none := by
  cases top with
  | none =>
      rw [hrest rfl]
      rfl
  | some f =>
      refine closing_cons rest fun s hs => ?_
      have hstage := (htop f rfl).stage
      rw [hs] at hstage
      cases hstage

theorem closing_aside {f : Frame} {s : Session} (hf : f.Aside s) : closing (f :: rest) = none := by
  refine closing_cons rest fun t ht => ?_
  rw [Frame.Aside, ht] at hf
  cases hf

/-- Every move keeps the order of what is still to be done. -/
theorem Moves.orderly {top : Option Frame} (h : Moves sys top sys' xs)
    (hd : Orderly (closing (top.toList ++ rest)) sys (top.toList ++ rest))
    (hrest : top = none → rest = []) : Orderly (closing (xs ++ rest)) sys' (xs ++ rest) := by
  cases h with
  | idled htop hquiet hxs =>
      rw [closing_plain htop hrest] at hd
      exact (hd.grow top (fun f hf => (htop f hf).stage) (hd.system.thrives.quiet hquiet)
        fun g hg => (hxs g hg).stage).mono _
  | grown h =>
      obtain rfl := hrest rfl
      show Orderly (closing ([] ++ [])) sys' ([] ++ [])
      exact (hd.grow none (by simp) h (by simp)).mono _
  | @watched s a sys' observers ha hputs =>
      obtain rfl := hrest rfl
      have hself := hd.attended s a ha
      show Orderly (closing ([] ++ [])) sys' ([] ++ [])
      exact hd.work none (by simp [closing]) (by simp) (by simp)
        (hputs.alters hd.system ha rfl rfl) ⟨hself.kept, hself.staged.congr rfl rfl, hself.current⟩
  | called hcalls hquiet h =>
      rw [hcalls.closing_eq hrest] at hd
      rw [List.append_assoc]
      exact h.orderly (hcalls.orderly hquiet hd)
  | resumed hf hquiet hxs =>
      have hd : Orderly (closing (_ :: rest)) sys (_ :: rest) := hd
      rw [closing_aside hf] at hd
      exact (hd.resumed hf hquiet hxs).mono _
  | posted hf ha hputs =>
      have hd : Orderly (closing (_ :: rest)) sys (_ :: rest) := hd
      rw [closing_aside hf] at hd
      exact (hd.posted hf ha hputs).mono _
  | exhausted hquiet => exact (Orderly.exhausted hd hquiet).mono _
  | performed _ h => exact Orderly.performed hd h
  | interrupted _ hg => exact (Orderly.interrupted hd hg).mono _
  | @settled s snapshot failure sys' hquiet _ _ =>
      obtain ⟨a, ha⟩ := hd.known _ List.mem_cons_self s _ rfl
      exact (Orderly.settled hd ha hquiet).mono _
  | @done s snapshot failure sys' hquiet _ =>
      obtain ⟨a, ha⟩ := hd.known _ List.mem_cons_self s _ rfl
      exact Orderly.done hd ha hquiet
  | @broken s snapshot failure sys' hquiet _ =>
      obtain ⟨a, ha⟩ := hd.known _ List.mem_cons_self s _ rfl
      exact Orderly.broken hd ha hquiet
  | reported hquiet hbefore => exact (Orderly.reported hd hquiet hbefore).mono _
  | untold hquiet => exact (Orderly.untold hd hquiet).mono _
  | emptied ha hnext hputs => exact (Orderly.emptied hd ha hnext hputs).mono _
  | passed ha hnext _ _ _ hputs => exact Orderly.passed hd ha hnext hputs
  | begun ha hnext _ hputs => exact Orderly.begun hd ha hnext hputs
  | stopped ha hnext _ htook hends hputs => exact Orderly.stopped hd ha hnext htook hends hputs
  | reacted ha hnext _ _ _ htook hreacts hputs =>
      exact Orderly.reacted hd ha hnext htook hreacts hputs
  | launched ha hlaunches hputs => exact Orderly.launched hd ha hlaunches hputs
  | halted ha hputs => exact Orderly.halted hd ha hputs
  | retired hactors hnext _ _ => exact (Orderly.retired hd hactors hnext).mono _
  | finished ha hputs => exact Orderly.finished hd ha hputs

end Statechart.Delivery
