import Statechart.Proofs.Running

/-!
# Stopping

Once the stop of an actor is bound to happen it stays so, whatever else goes on (`Doomed`), until
the actor has stopped; and an actor that stops leaves nothing behind in the registry or with the
scheduler (`Cleared`). What an actor had as children when it stopped is stopped with it
(`Delivery.stop_cascades`), but for a child that its exit actions put another actor in the place of
(`replaced_child_goes_on`).
-/

namespace Statechart

theorem Snapshot.sessions_congr {s s' : Snapshot} (h : s'.children = s.children) :
    s'.sessions = s.sessions := by
  rw [sessions, sessions, h]

namespace Delivery

variable {sys sys' : System} {top : Option Frame} {rest xs frames : List Frame} {c s : Session}

/-! ## Actors that are bound to stop -/

/-- The stop of an actor is bound to happen: it has happened, it has been asked for, or something
that is still to be done leads to it. -/
inductive Doomed (sys : System) (frames : List Frame) (c : Session) : Prop
  | stopped {a : Actor} (ha : sys.actor? c = some a) (h : a.status = .stopped)
  | asked {a : Actor} (ha : sys.actor? c = some a) (h : a.mailbox.AsksStop)
  | ordered {f : Frame} (hf : f ∈ frames) (hc : c ∈ f.orders)
  | halting (h : .halt c ∈ frames)
  /-- The parent is going to be closed. -/
  | below {s : Session} {a : Actor} (h : .halt s ∈ frames) (ha : sys.actor? s = some a)
      (hc : c ∈ a.snapshot.sessions)

/-- Frames that stop an actor are carried out. -/
theorem Calls.orders {t : Session} {k : Call} {below : List Frame} {f : Frame}
    (h : Calls sys (some f) t k below) (hc : c ∈ f.orders) :
    (∃ g ∈ below, c ∈ g.orders) ∨ (t = c ∧ k = .stop) := by
  cases h with
  | @send s t recipient event id rest =>
      exact .inl ⟨.effects s rest, by simp, by simpa [Frame.orders, Effect.stops] using hc⟩
  | @start s t rest _ =>
      exact .inl ⟨.effects s rest, by simp, by simpa [Frame.orders, Effect.stops] using hc⟩
  | @stop s t rest =>
      have hc : c = t ∨ c ∈ rest.flatMap Effect.stops := by
        simpa [Frame.orders, Effect.stops] using hc
      rcases hc with rfl | hc
      · exact .inr ⟨rfl, rfl⟩
      · exact .inl ⟨.effects s rest, by simp, hc⟩
  | @stopAll t rest =>
      rcases List.mem_cons.mp hc with rfl | hc
      · exact .inr ⟨rfl, rfl⟩
      · exact .inl ⟨.stopAll rest, by simp, hc⟩
  | _ => cases hc

/-- Who is told to stop is bound to. -/
theorem Answered.doomed (h : Answered sys c .stop sys' xs) (hc : ∃ a, sys.actor? c = some a)
    (below : List Frame) : Doomed sys' (xs ++ below) c := by
  obtain ⟨a, ha⟩ := hc
  cases h with
  | refused hquiet _ hstop =>
      exact .stopped ((hquiet.actor? c).trans ha) (hstop rfl a ha)
  | posted _ hturns _ hputs _ => exact .asked hputs.self hturns.asksStop
  | claimed _ hturns hbegin hputs =>
      exact .asked hputs.self ((Mailbox.continues_beginFlush hbegin).stop hturns.asksStop)
  | halted => exact .halting (by simp)

/-- What is on top and stops an actor goes on doing so, or has done it. -/
theorem Moves.orders {f : Frame} (h : Moves sys (some f) sys' xs) (hc : c ∈ f.orders)
    (hknown : ∃ a, sys.actor? c = some a) : Doomed sys' (xs ++ rest) c := by
  cases h with
  | idled htop =>
      rw [(htop f rfl).orders] at hc
      cases hc
  | @called _ t k below sys₁ _ xs hcalls hquiet h =>
      rw [List.append_assoc]
      rcases hcalls.orders hc with ⟨g, hg, hc⟩ | ⟨rfl, rfl⟩
      · exact .ordered (List.mem_append_right _ (List.mem_append_left _ hg)) hc
      · obtain ⟨a, ha⟩ := hknown
        exact h.doomed ⟨a, (hquiet.actor? t).trans ha⟩ _
  | resumed hf | posted hf =>
      rw [hf.orders] at hc
      cases hc
  | @performed s e rest' _ he _ =>
      refine .ordered (f := .effects s rest') (by simp) ?_
      simpa [Frame.orders, he] using hc
  | @interrupted s e rest' g he _ =>
      refine .ordered (f := .effects s rest') (by simp) ?_
      simpa [Frame.orders, he] using hc
  | _ => cases hc

/-- To halt an actor closes it and stops its children. -/
theorem Moves.halt_cases (h : Moves sys (some (.halt s)) sys' xs) :
    ∃ a, sys.actor? s = some a ∧ sys.Puts s { a with mailbox := a.mailbox.close } sys' ∧
      xs = [.stopAll a.snapshot.sessions, .retire s] := by
  cases h with
  | idled htop => cases (htop _ rfl).stage
  | called hcalls => cases hcalls
  | resumed hf | posted hf => cases hf
  | @halted _ a _ ha hputs => exact ⟨a, ha, hputs, rfl⟩

/-- Whose stop is bound to happen stays so. -/
theorem Doomed.moves (h : Doomed sys (top.toList ++ rest) c) (hmoves : Moves sys top sys' xs)
    (hd : Orderly (closing (top.toList ++ rest)) sys (top.toList ++ rest))
    (hknown : ∃ a, sys.actor? c = some a) : Doomed sys' (xs ++ rest) c := by
  have hevolution := hmoves.evolution hd
  cases h with
  | @stopped b hb hstopped =>
      obtain ⟨b', hb', -, hevolves⟩ := hevolution.actor c b hb
      exact .stopped hb' (hevolves.stopped hstopped).1
  | @asked b hb hasks =>
      obtain ⟨b', hb', -, hevolves⟩ := hevolution.actor c b hb
      rcases hevolves.asksStop hasks with hstopped | hasks'
      · exact .stopped hb' hstopped
      · exact .asked hb' hasks'
  | @ordered f hf hc =>
      rcases List.mem_append.mp hf with hf | hf
      · cases Option.mem_toList.mp hf
        exact hmoves.orders hc hknown
      · exact .ordered (List.mem_append_right _ hf) hc
  | halting h =>
      rcases List.mem_append.mp h with hf | hf
      · cases Option.mem_toList.mp hf
        obtain ⟨a, ha, hputs, -⟩ := hmoves.halt_cases
        exact .stopped hputs.self rfl
      · exact .halting (List.mem_append_right _ hf)
  | @below s a h ha hc =>
      rcases List.mem_append.mp h with hf | hf
      · cases Option.mem_toList.mp hf
        obtain ⟨b, hb, -, hxs⟩ := hmoves.halt_cases
        rw [ha] at hb
        cases hb
        exact .ordered (f := .stopAll a.snapshot.sessions) (by simp [hxs]) hc
      · -- an actor that is closed later takes no event before
        have hdrain : top ≠ some (.drain s) := by
          rintro rfl
          have hd : Orderly none sys (.drain s :: rest) := hd
          have hmem := mem_stages.mpr ⟨_, hf, rfl⟩
          rw [hd.below_drain ha] at hmem
          cases hmem
        obtain ⟨a', ha', -, hevolves⟩ := hevolution.actor s a ha
        have hsessions := Snapshot.sessions_congr (hevolves.children hdrain)
        exact .below (List.mem_append_right _ hf) ha' (hsessions ▸ hc)

/-! ## What stopped actors leave behind -/

/-- An actor can neither be found nor has it any timer. -/
structure Cleared (sys : System) (s : Session) : Prop where
  registered : s.number ∉ sys.registered
  timers : ∀ t ∈ sys.scheduler.timers, t.2.owner ≠ s

/-- Only new actors are registered, and no timers are set. -/
structure Adds (sys sys' : System) : Prop where
  next : sys.nextSession ≤ sys'.nextSession
  registered : ∀ n ∈ sys'.registered, n ∈ sys.registered ∨ sys.nextSession ≤ n
  timers : ∀ t ∈ sys'.scheduler.timers, t ∈ sys.scheduler.timers

theorem adds_grown (h : sys.Grown sys') : Adds sys sys' := ⟨h.next, h.registered, h.timers⟩

theorem adds_quiet (h : sys.Quiet sys') : Adds sys sys' := adds_grown h.grown

theorem adds_puts {a : Actor} (h : sys.Puts s a sys') : Adds sys sys' :=
  ⟨Nat.le_of_eq h.next.symm, fun _ hn => .inl (h.registered ▸ hn), h.timers⟩

theorem Adds.trans {sys'' : System} (h : Adds sys sys') (h' : Adds sys' sys'') :
    Adds sys sys'' where
  next := Nat.le_trans h.next h'.next
  registered n hn := by
    rcases h'.registered n hn with hn | hlate
    · exact h.registered n hn
    · exact .inr (Nat.le_trans h.next hlate)
  timers t ht := h.timers t (h'.timers t ht)

theorem Answered.adds {t : Session} {k : Call} (h : Answered sys t k sys' xs) : Adds sys sys' := by
  cases h with
  | refused hquiet => exact adds_quiet hquiet
  | posted _ _ _ hputs | claimed _ _ _ hputs | halted _ _ hputs => exact adds_puts hputs

/-- Timers are only set by effects. -/
theorem Moves.adds (h : Moves sys top sys' xs)
    (hd : Orderly (closing (top.toList ++ rest)) sys (top.toList ++ rest)) :
    Adds sys sys' ∨ ∃ t e es, top = some (.effects t (e :: es)) ∧ sys.Schedules t sys' := by
  have hsound := hd.system
  cases h with
  | idled _ hquiet | resumed _ hquiet | exhausted hquiet | settled hquiet | done hquiet
  | broken hquiet | reported hquiet | untold hquiet => exact .inl (adds_quiet hquiet)
  | interrupted => exact .inl (adds_quiet (.refl sys))
  | grown h => exact .inl (adds_grown h.grown)
  | called _ hquiet h => exact .inl ((adds_quiet hquiet).trans h.adds)
  -- an effect is the only thing that sets timers
  | performed _ h => exact .inr ⟨_, _, _, rfl, h⟩
  | watched _ _ hputs | posted _ _ hputs | emptied _ _ hputs | passed _ _ _ _ _ hputs
  | begun _ _ _ hputs | halted _ hputs | finished _ hputs => exact .inl (adds_puts hputs)
  | stopped ha _ _ htook hends hputs =>
      obtain ⟨hthrives, -⟩ := hends.spec (htook.alters hsound ha rfl rfl).sound htook.self
      exact .inl ((adds_puts htook).trans ((adds_grown hthrives.grown).trans (adds_puts hputs)))
  | reacted ha _ _ _ _ htook hreacts hputs =>
      obtain ⟨hthrives, -⟩ := hreacts.spec (htook.alters hsound ha rfl rfl).sound htook.self
      exact .inl ((adds_puts htook).trans ((adds_grown hthrives.grown).trans (adds_puts hputs)))
  | @launched s snapshot a sys₁ sys' next effects failure ha hlaunches hputs =>
      have hd : Orderly none sys (.launch s snapshot :: rest) := hd
      obtain ⟨hthrives, -⟩ := hlaunches.spec hsound (hd.launching ha ▸ hsound.suits s a ha)
      exact .inl ((adds_grown hthrives.grown).trans (adds_puts hputs))
  | retired _ hnext hregistered htimers =>
      refine .inl ⟨Nat.le_of_eq hnext.symm, fun n hn => .inl ?_, fun t ht => (htimers t ht).1⟩
      rw [hregistered, NodeSet.mem_erase] at hn
      exact hn.2

/-- To retire an actor clears it. -/
theorem Moves.cleared (h : Moves sys (some (.retire s)) sys' xs) : Cleared sys' s := by
  cases h with
  | idled htop => cases (htop _ rfl).stage
  | called hcalls => cases hcalls
  | resumed hf | posted hf => cases hf
  | retired _ _ hregistered htimers =>
      refine ⟨fun hn => ?_, fun t ht => (htimers t ht).2⟩
      rw [hregistered, NodeSet.mem_erase] at hn
      exact hn.1 rfl

/-- Who has stopped has been cleared, unless that is still to be done. -/
def Clears (sys : System) (frames : List Frame) : Prop :=
  ∀ s a, sys.actor? s = some a → a.status = .stopped →
    (.halt ∈ stages s frames ∨ .retire ∈ stages s frames) ∨ Cleared sys s

theorem eq_of_stage {f : Frame} :
    (f.stage = some (s, .halt) → f = .halt s) ∧ (f.stage = some (s, .retire) → f = .retire s) := by
  cases f <;> simp_all [Frame.stage]

theorem Cleared.adds (h : Cleared sys s) (hadds : Adds sys sys')
    (hs : s.number < sys.nextSession) : Cleared sys' s where
  registered hn := by
    rcases hadds.registered _ hn with hn | hlate
    · exact h.registered hn
    · omega
  timers t ht := h.timers t (hadds.timers t ht)

/-- An actor that has stopped and carries out effects is going to be halted. -/
theorem Orderly.halts {effects : List Effect} {a : Actor}
    (hd : Orderly none sys (.effects s effects :: rest)) (ha : sys.actor? s = some a)
    (hstopped : a.status = .stopped) : .halt ∈ stages s rest := by
  have hstaged := hd.staged (f := .effects s effects) rfl ha
  have hidle : ∀ x ∈ Stage.effects :: stages s rest, ¬x.Active := by
    intro x hx hactive
    have hrunning := hstaged.running x hx hactive
    rw [hstopped] at hrunning
    cases hrunning
  rcases hstaged.legal with hrest | hrest | hrest <;> rw [hrest] at hidle ⊢
  · exact absurd (.inl rfl) (hidle .launch (by simp))
  · exact absurd (.inr rfl) (hidle .settle (by simp))
  · simp

/-- Who has been cleared stays so, unless effects are carried out before the actor is halted. -/
theorem Cleared.moves {a : Actor} (h : Cleared sys s) (hmoves : Moves sys top sys' xs)
    (hd : Orderly (closing (top.toList ++ rest)) sys (top.toList ++ rest))
    (ha : sys.actor? s = some a) (hstopped : a.status = .stopped) :
    .halt ∈ stages s rest ∨ Cleared sys' s := by
  have hold := hd.system.fresh s a ha
  rcases hmoves.adds hd with hadds | ⟨t, e, es, rfl, hschedules⟩
  · exact .inr (h.adds hadds hold)
  · by_cases hts : t = s
    · have hd : Orderly none sys (.effects t (e :: es) :: rest) := hd
      rw [hts] at hd
      exact .inl (hd.halts ha hstopped)
    · refine .inr ⟨hschedules.registered ▸ h.registered, fun timer htimer => ?_⟩
      rcases hschedules.timers timer htimer with htimer | howner
      · exact h.timers timer htimer
      · rw [howner]
        exact hts

theorem Clears.moves (h : Clears sys (top.toList ++ rest)) (hmoves : Moves sys top sys' xs)
    (hd : Orderly (closing (top.toList ++ rest)) sys (top.toList ++ rest)) :
    Clears sys' (xs ++ rest) := by
  intro s a' ha' hstopped'
  -- what halts or retires the actor is on the way
  have hxs : ∀ {x : Stage} {f : Frame}, f ∈ xs → f.stage = some (s, x) →
      x ∈ stages s (xs ++ rest) := fun hf hstage =>
    mem_stages.mpr ⟨_, List.mem_append_left _ hf, hstage⟩
  have hrest : ∀ {x : Stage}, x ∈ stages s rest → x ∈ stages s (xs ++ rest) := fun hx => by
    rw [stages_append]
    exact List.mem_append_right _ hx
  have hhalted : top = some (.halt s) → .retire ∈ stages s (xs ++ rest) := by
    rintro rfl
    obtain ⟨b, -, -, rfl⟩ := hmoves.halt_cases
    exact hxs (f := .retire s) (by simp) rfl
  have hevolution := hmoves.evolution hd
  rcases hevolution.made s a' ha' with ⟨b, hb⟩ | hnew
  · obtain ⟨b', hb', -, hevolves⟩ := hevolution.actor s b hb
    rw [ha'] at hb'
    cases hb'
    by_cases hstopped : b.status = .stopped
    · rcases h s b hb hstopped with hstage | hcleared
      · -- the stage is still below, or it is on top
        rw [stages_append, List.mem_append, List.mem_append] at hstage
        have htop : ∀ {x : Stage}, x ∈ stages s top.toList →
            ∃ f, top = some f ∧ f.stage = some (s, x) := fun hx => by
          obtain ⟨f, hf, hstage⟩ := mem_stages.mp hx
          exact ⟨f, Option.mem_toList.mp hf, hstage⟩
        rcases hstage with (hhalt | hhalt) | (hretire | hretire)
        · obtain ⟨f, hf, hstage⟩ := htop hhalt
          rw [eq_of_stage.1 hstage] at hf
          exact .inl (.inr (hhalted hf))
        · exact .inl (.inl (hrest hhalt))
        · obtain ⟨f, rfl, hstage⟩ := htop hretire
          rw [eq_of_stage.2 hstage] at hmoves
          exact .inr hmoves.cleared
        · exact .inl (.inr (hrest hretire))
      · exact (hcleared.moves hmoves hd hb hstopped).imp_left fun hhalt => .inl (hrest hhalt)
    · rcases hevolves.stops hstopped hstopped' with ⟨htop, -⟩ | ⟨effects, -, hhalt, -⟩
      · exact .inl (.inr (hhalted htop))
      · exact .inl (.inl (hxs hhalt rfl))
  · rw [Actor.status, hnew] at hstopped'
    cases hstopped'

/-! ## Runs -/

variable {d d' : Delivery} {past : List Delivery}

/-- The stop of an actor is bound to happen in a delivery. -/
def Dooms (d : Delivery) (c : Session) : Prop := Doomed d.system d.frames c

theorem Doomed.quiet (h : Doomed sys frames c) (hquiet : sys.Quiet sys') :
    Doomed sys' frames c := by
  cases h with
  | stopped ha h => exact .stopped ((hquiet.actor? c).trans ha) h
  | asked ha h => exact .asked ((hquiet.actor? c).trans ha) h
  | ordered hf hc => exact .ordered hf hc
  | halting h => exact .halting h
  | below h ha hc => exact .below h ((hquiet.actor? _).trans ha) hc

theorem Dooms.happens (h : d.Dooms c) (hnext : d.Happens d') (hd : d.Sound)
    (hknown : ∃ a, d.system.actor? c = some a) : d'.Dooms c := by
  obtain ⟨sys, top, rest, xs, hgoes⟩ := hnext.goes hd
  have hsys : Orderly (closing d.frames) sys d.frames := hd.quiet hgoes.quiet
  have hdoomed := Doomed.quiet h hgoes.quiet
  obtain ⟨a, ha⟩ := hknown
  unfold Dooms
  rw [hgoes.frames] at hsys hdoomed
  rw [hgoes.result]
  exact hdoomed.moves hgoes.moves hsys ⟨a, (hgoes.quiet.actor? c).trans ha⟩

theorem Dooms.run {first : Delivery} (h : first.Dooms c) (hrun : first.Run past d)
    (hfirst : Reached first) (hknown : ∃ a, first.system.actor? c = some a) : d.Dooms c := by
  induction hrun with
  | refl => exact h
  | next hbefore hnext ih =>
      obtain ⟨a, ha⟩ := hknown
      obtain ⟨a', ha', -⟩ := (hbefore.follows hfirst).actor c a ha
      exact ih.happens hnext (hbefore.reached hfirst).sound ⟨a', ha'⟩

/-- When no call is in progress, who is bound to stop has stopped. -/
theorem Dooms.idle (h : d.Dooms c) (hd : d.Sound) (hidle : d.frames = []) :
    (d.system.actor c).status = .stopped := by
  unfold Dooms at h
  rw [hidle] at h
  cases h with
  | stopped ha h => rw [System.actor_eq ha, h]
  | @asked a ha h =>
      obtain ⟨hrunning, event, hevent, -⟩ := h
      have hempty := (hd.settled hidle ha).2 hrunning
      rw [hempty] at hevent
      cases hevent
  | ordered hf => cases hf
  | halting h => cases h
  | below h => cases h

/-- Who has children exists. -/
theorem exists_of_child {p : Session} {c : String × Session}
    (hc : c ∈ (sys.actor p).snapshot.children) : ∃ a, sys.actor? p = some a := by
  cases ha : sys.actor? p with
  | some a => exact ⟨a, rfl⟩
  | none =>
      rw [System.actor, ha] at hc
      cases hc

/-- When an actor stops, its children are bound to stop, unless the same step puts another actor in
the place of one. -/
theorem Happens.stops (h : d.Happens d') (hd : d.Sound) {p : Session} {a : Actor}
    (ha : d.system.actor? p = some a) (hopen : (d.system.actor p).status ≠ .stopped)
    (hstopped : (d'.system.actor p).status = .stopped) :
    ∀ c ∈ (d.system.actor p).snapshot.children,
      d'.Dooms c.2 ∨ d.system.Replaces d'.system p c.1 := by
  intro c hc
  obtain ⟨sys, top, rest, xs, hgoes⟩ := h.goes hd
  obtain ⟨a', ha', -, hevolves⟩ := (hgoes.evolution hd).actor p a ha
  rw [System.actor_eq ha] at hopen hc
  rw [System.actor_eq ha'] at hstopped
  have hxs : ∀ {f}, f ∈ xs → f ∈ d'.frames := fun hf => by
    rw [hgoes.result]
    exact List.mem_append_left _ hf
  rcases hevolves.stops hopen hstopped with ⟨-, hstop⟩ | ⟨effects, heffects, hhalt, hlineage⟩
  · exact .inl (.ordered (hxs hstop) (List.mem_map_of_mem hc))
  · rcases hlineage.kept c hc with hnew | hstop | ⟨event, hevent, -⟩ | hreplaced
    · exact .inl (.below (hxs hhalt) ha' (List.mem_map_of_mem hnew))
    · refine .inl (.ordered (hxs heffects) ?_)
      exact List.mem_flatMap.mpr ⟨_, hstop, List.mem_singleton_self _⟩
    · cases hevent
    · exact .inr hreplaced

theorem Reached.clears (h : Reached d) : Clears d.system d.frames := by
  refine h.keeps (fun sys hnil s a ha => ?_) (fun hquiet hclears s a ha hstopped => ?_)
    fun hd hmoves hclears => hclears.moves hmoves hd
  · rw [System.actor?, hnil] at ha
    cases ha
  · rw [hquiet.actor? s] at ha
    refine (hclears s a ha hstopped).imp_right fun hcleared => ?_
    exact ⟨hquiet.registered ▸ hcleared.registered, fun t ht =>
      hcleared.timers t (hquiet.timers t ht)⟩

/-- In a step on the way to a delivery an actor has stopped that had a child then, and the step has
put no other actor in the place of the child. -/
inductive Drags (d : Delivery) (p c : Session) : Prop
  | intro {e e' : Delivery} {past : List Delivery} {id : String} (he : Reached e)
      (hnext : e.Happens e') (hrun : e'.Run past d) (hopen : (e.system.actor p).status ≠ .stopped)
      (hstopped : (e'.system.actor p).status = .stopped)
      (hchild : (id, c) ∈ (e.system.actor p).snapshot.children)
      (hkept : ¬e.system.Replaces e'.system p id)

theorem Drags.stopped {p : Session} (h : d.Drags p c) (hidle : d.frames = []) :
    (d.system.actor c).status = .stopped := by
  obtain ⟨he, hnext, hrun, hopen, hstopped, hchild, hkept⟩ := h
  obtain ⟨a, ha⟩ := exists_of_child hchild
  have he' := he.next hnext
  have hdooms := (hnext.stops he.sound ha hopen hstopped _ hchild).resolve_right hkept
  rw [System.actor_eq ha] at hchild
  obtain ⟨b, hb, -⟩ := (he.sound.system.suits p a ha).children _ hchild
  obtain ⟨b', hb', -⟩ := (hnext.follows he.sound).actor _ b hb
  exact (hdooms.run hrun he' ⟨b', hb'⟩).idle (hrun.reached he').sound hidle

/-- When no call is in progress, nothing waits for an actor that has stopped, nothing finds it, and
it has no timer; and all that were its children when it stopped have stopped too, with all their
children, and so on. -/
theorem stop_cascades (h : Reached d) (hidle : d.frames = []) :
    (∀ s a, d.system.actor? s = some a → a.status = .stopped →
      a.mailbox.queue = [] ∧ d.system.lookup? s = none ∧
        ∀ t ∈ d.system.scheduler.timers, t.2.owner ≠ s) ∧
    ∀ p c, Relation.TransGen d.Drags p c → (d.system.actor c).status = .stopped := by
  refine ⟨fun s a ha hstopped => ?_, fun p c hdrags => ?_⟩
  · have hcleared : Cleared d.system s := by
      refine (h.clears s a ha hstopped).resolve_left fun hstage => ?_
      rw [hidle] at hstage
      simp at hstage
    have hempty := (h.sound.attended s a ha).kept.emptied hstopped
    refine ⟨hempty, ?_, hcleared.timers⟩
    have hgone : d.system.registered.contains s.number = false :=
      Bool.eq_false_iff.mpr hcleared.registered
    rw [System.lookup?, hgone, Bool.false_and, if_neg Bool.false_ne_true]
  · cases hdrags with
    | single h => exact h.stopped hidle
    | tail _ h => exact h.stopped hidle

/-! ## A child of the same id -/

/-- A behaviour that does nothing. -/
def worker : Logic := .reducer (fun _ => .null) fun _ context _ => { result := context }

/-- To spawn a worker under the id `c`. -/
def hire : ActionConfig := .spawnChild "worker" (some "c") none none

/-- A machine that spawns a worker, and what it does when it is left. -/
def officeConfig (exit : List ActionConfig) : MachineConfig where
  root := .node { id := some "office", initial := some "open" }
    (some [("open", .node { entry := [hire], exit } none)])

def office (exit : List ActionConfig) : Logic :=
  .machine ((Definition.build (officeConfig exit)).toOption.getD default)
    { (default : Implementations Logic) with actors := fun _ => some worker }

/-- An office that has been opened, with what has happened before. -/
def officeOpen (exit : List ActionConfig) : List Delivery × Delivery := startRun (office exit) 30

/-- An office that is told to stop. -/
def officeClosing (exit : List ActionConfig) : Delivery :=
  call (officeOpen exit).2.system ⟨0⟩ .stop

/-- What the stop of an office leads to. -/
def officeClosed (exit : List ActionConfig) : Delivery :=
  (goOn 30 ([], (officeClosing exit).step)).2

theorem reached_office (exit : List ActionConfig)
    (hidle : (officeOpen exit).2.frames.isEmpty = true) : Reached (officeClosing exit) :=
  ((run_startRun (office exit) 30).next (.call _ (List.isEmpty_iff.mp hidle) ⟨0⟩ .stop)).reached
    (.fresh _ rfl)

theorem run_office (exit : List ActionConfig) :
    (officeClosing exit).step.Run (goOn 30 ([], (officeClosing exit).step)).1 (officeClosed exit) :=
  Run.refl.goOn 30

set_option maxRecDepth 100000 in
/-- A worker is stopped with its office. -/
theorem worker_stopped : ((officeClosed []).system.actor ⟨1⟩).status = .stopped := by
  have he := reached_office [] (by decide +kernel)
  have hnone : ¬(officeClosing []).system.Replaces (officeClosing []).step.system ⟨0⟩ "c" :=
    System.not_replaces (by decide +kernel) ⟨0⟩ "c"
  have hdrags : (officeClosed []).Drags ⟨0⟩ ⟨1⟩ :=
    .intro he (.step _) (run_office []) (by decide +kernel) (by decide +kernel)
      (by decide +kernel) hnone
  have hidle : (officeClosed []).frames.isEmpty = true := by decide +kernel
  exact (stop_cascades ((run_office []).reached (he.next (.step _))) (List.isEmpty_iff.mp hidle)).2
    _ _ (.single hdrags)

set_option maxRecDepth 100000 in
/-- Where the exit actions put another actor in the place of a child, the child is not stopped: an
office that hires on exit leaves its first worker behind. -/
theorem replaced_child_goes_on : ¬∀ (e e' d : Delivery) (past : List Delivery) (p c : Session)
    (id : String), Reached e → e.Happens e' → e'.Run past d → d.frames = [] →
    (e.system.actor p).status ≠ .stopped → (e'.system.actor p).status = .stopped →
    (id, c) ∈ (e.system.actor p).snapshot.children → (d.system.actor c).status = .stopped := by
  intro hall
  have he := reached_office [hire] (by decide +kernel)
  have hidle : (officeClosed [hire]).frames.isEmpty = true := by decide +kernel
  have hstopped := hall _ _ _ _ ⟨0⟩ ⟨1⟩ "c" he (.step _) (run_office [hire])
    (List.isEmpty_iff.mp hidle) (by decide +kernel) (by decide +kernel) (by decide +kernel)
  have hrunning : ((officeClosed [hire]).system.actor ⟨1⟩).status = .running := by decide +kernel
  rw [hrunning] at hstopped
  cases hstopped

end Delivery

end Statechart
