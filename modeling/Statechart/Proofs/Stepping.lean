import Statechart.Proofs.Deliveries

/-!
# Steps of deliveries

Every step of a delivery makes one of the moves that `Delivery.Moves` lists (`moves_frame`). There
is a lemma for each function that a step may call.
-/

namespace Statechart

/-! ## Timers -/

namespace Scheduler

variable {s : Scheduler} {t : Key × Timer}

theorem mem_of_mem_cancel {owner : Session} {id : String} (h : t ∈ (s.cancel owner id).1.timers) :
    t ∈ s.timers := by
  unfold cancel at h
  split at h
  · exact h
  · exact (List.mem_filter.mp h).1

theorem mem_place {key : Key} {timer : Timer} {timers : List (Key × Timer)}
    (h : t ∈ place key timer timers) : t = (key, timer) ∨ t ∈ timers := by
  induction timers with
  | nil => exact .inl (List.mem_singleton.mp h)
  | cons entry rest ih =>
      rw [place] at h
      split at h
      · exact List.mem_cons.mp h
      · rcases List.mem_cons.mp h with rfl | h
        · exact .inr List.mem_cons_self
        · exact (ih h).imp_right (List.mem_cons_of_mem _)

theorem mem_schedule {timer : Timer} (h : t ∈ (s.schedule timer).timers) :
    t.2 = timer ∨ t ∈ s.timers := by
  unfold schedule at h
  simp only at h
  split at h <;> rcases mem_place h with rfl | h
  · exact .inl rfl
  · exact .inr (mem_of_mem_cancel h)
  · exact .inl rfl
  · exact .inr h

theorem mem_of_mem_popDue {now : Nat} {timer : Timer} {s' : Scheduler}
    (h : s.popDue? now = some (timer, s')) (ht : t ∈ s'.timers) : t ∈ s.timers := by
  unfold popDue? at h
  split at h
  · cases h
  · rename_i key first rest htimers
    split at h
    · cases h
    · cases h
      rw [htimers]
      exact List.mem_cons_of_mem _ ht

end Scheduler

namespace Delivery

/-- What is put below one after the other. -/
theorem before_append (d : Delivery) (xs ys : List Frame) :
    (d.before xs).before ys = d.before (xs ++ ys) := by
  simp only [before, List.append_assoc]

theorem before_nil (d : Delivery) : d.before [] = d := by
  simp only [before, List.append_nil]

/-! ## Calls -/

section Calls

variable {sys sys₁ : System} {t : Session} {a : Actor} {m : Mailbox} {c : Call}

/-- A mailbox that has turned is worked off, unless that is not possible. -/
theorem answered_flush (hkeyed : sys.Keyed) (ha : sys.actor? t = some a)
    (hturns : a.mailbox.Turns c m) (hputs : sys.Puts t { a with mailbox := m } sys₁) :
    Answered sys t c (flush sys₁ t).system (flush sys₁ t).frames := by
  have hsession : a.session = t := hkeyed t a ha
  have henter : sys.Puts t { a with mailbox := m } sys₁.enter := hputs.quiet (.of_eq rfl rfl rfl rfl)
  have hmailbox : (sys₁.enter.actor t).mailbox = m := by rw [henter.actor_self]
  unfold flush
  simp only
  rw [hmailbox]
  cases hbegin : m.beginFlush? with
  | none => exact .posted ha hturns (Mailbox.settled_of_beginFlush hbegin) henter (.inr rfl)
  | some m' =>
      have hclaim := System.puts_setMailbox (henter.keyed hkeyed hsession) henter.self m'
      exact .claimed ha hturns hbegin (henter.trans hclaim)

/-- An actor that there is none of has no mailbox to work off. -/
theorem refused_flush (hnone : sys.actor? t = none) (hquiet : sys.Quiet sys₁) :
    sys.Quiet (flush sys₁ t).system ∧ (flush sys₁ t).frames = [.leave] := by
  have henter : sys.Quiet sys₁.enter := hquiet.trans (.of_eq rfl rfl rfl rfl)
  have hactor : sys₁.enter.actor t = default := by
    rw [System.actor, henter.actor? t, hnone]
    rfl
  unfold flush
  simp only
  rw [hactor]
  exact ⟨henter, rfl⟩

theorem quiet_checkMailbox (sys : System) (s : Session) : sys.Quiet (checkMailbox sys s) := by
  unfold checkMailbox
  simp only
  split <;> exact .of_eq rfl rfl rfl rfl

theorem answered_send (hkeyed : sys.Keyed) (t : Session) (event : Event) :
    Answered sys t (.send event) (send sys t event).system (send sys t event).frames := by
  have hstop : ∀ {c : Call}, c = .send event → c = .stop → ∀ a, sys.actor? t = some a →
      a.status = .stopped := by
    rintro c rfl h
    cases h
  cases ha : sys.actor? t with
  -- whoever is unknown has no mailbox to take the event
  | none =>
      have hquiet : ∀ m, sys.Quiet (checkMailbox (sys.setMailbox t m) t) :=
        fun m => (System.quiet_modify _ ha).trans (quiet_checkMailbox _ t)
      unfold send
      simp only
      split
      · exact .refused (.of_eq rfl rfl rfl rfl) (.inl rfl) (hstop rfl)
      · split
        · obtain ⟨hflush, hframes⟩ := refused_flush ha (hquiet _)
          exact .refused hflush (.inr hframes) (hstop rfl)
        · exact .refused (hquiet _) (.inl rfl) (hstop rfl)
        · refine .refused ?_ (.inl rfl) (hstop rfl)
          show sys.Quiet (if _ then _ else _)
          split
          · exact (hquiet _).trans (.of_eq rfl rfl rfl rfl)
          · exact hquiet _
        · exact .refused (hquiet _) (.inl rfl) (hstop rfl)
  | some a =>
      unfold send
      simp only
      rw [System.actor_eq ha]
      split
      · exact .refused (.of_eq rfl rfl rfl rfl) (.inl rfl) (hstop rfl)
      · have hturns := Mailbox.Turns.sent (m := a.mailbox) event sys.config.deferEvents
        have hunready := fun h => Mailbox.settled_enqueue (m := a.mailbox) event
          sys.config.deferEvents (.inr h)
        -- from here on only what the offer did to the mailbox matters
        generalize a.mailbox.enqueue event sys.config.deferEvents = offered at hturns hunready
        obtain ⟨m, offer⟩ := offered
        have hputs : sys.Puts t { a with mailbox := m } (checkMailbox (sys.setMailbox t m) t) :=
          (System.puts_setMailbox hkeyed ha m).quiet (quiet_checkMailbox _ t)
        cases offer with
        | ready => exact answered_flush hkeyed ha hturns hputs
        | buffered => exact .posted ha hturns (hunready nofun) hputs (.inl rfl)
        | dropped =>
            refine .posted ha hturns (hunready nofun) ?_ (.inl rfl)
            show sys.Puts t _ (if _ then _ else _)
            split
            · exact hputs.quiet (.of_eq rfl rfl rfl rfl)
            · exact hputs
        | rejected => exact .posted ha hturns (hunready nofun) hputs (.inl rfl)

theorem answered_start (hkeyed : sys.Keyed) (t : Session) :
    Answered sys t .start (start sys t).system (start sys t).frames := by
  cases ha : sys.actor? t with
  | none =>
      unfold start
      simp only
      split
      · exact .refused (.refl sys) (.inl rfl) nofun
      · have hnote : ∀ (sys : System) (n : Notice), sys.Quiet (sys.note n) :=
          fun _ _ => .of_eq rfl rfl rfl rfl
        obtain ⟨hflush, hframes⟩ := refused_flush ha ((System.quiet_modify _ ha).trans (hnote _ _))
        exact .refused hflush (.inr hframes) nofun
  | some a =>
      unfold start
      simp only
      rw [System.actor_eq ha]
      cases hstart : a.mailbox.start? with
      | none => exact .refused (.refl sys) (.inl rfl) nofun
      | some m =>
          exact answered_flush hkeyed ha (.started hstart)
            ((System.puts_setMailbox hkeyed ha m).quiet (.of_eq rfl rfl rfl rfl))

theorem answered_stop (hkeyed : sys.Keyed) (t : Session) :
    Answered sys t .stop (stop sys t).system (stop sys t).frames := by
  unfold stop
  cases ha : sys.actor? t with
  | none => exact .refused (.refl sys) (.inl rfl) fun _ a h => by rw [ha] at h; cases h
  | some a =>
      simp only
      cases hstatus : a.status with
      | running =>
          exact answered_flush hkeyed ha (.stopAsked hstatus)
            (System.puts_setMailbox hkeyed ha _)
      | notStarted => exact .halted ha hstatus (System.puts_setSnapshot hkeyed ha _)
      | stopped =>
          refine .refused (.refl sys) (.inl rfl) fun _ b hb => ?_
          rw [ha] at hb
          cases hb
          exact hstatus

theorem answered_call (hkeyed : sys.Keyed) (t : Session) (c : Call) :
    Answered sys t c (call sys t c).system (call sys t c).frames := by
  cases c with
  | start => exact answered_start hkeyed t
  | stop => exact answered_stop hkeyed t
  | send event => exact answered_send hkeyed t event

end Calls

/-! ## Effects -/

section Frames

variable {sys : System} {s : Session} {a : Actor}

theorem quiet_recordUnhandled (sys : System) (e : ActorError) :
    sys.Quiet (sys.recordUnhandled e) := by
  unfold System.recordUnhandled
  split <;> exact .of_eq rfl rfl rfl rfl

theorem schedules_schedule (sys : System) (s : Session) (id : Option String) (delay : Nat)
    (target : Destination) (event : Event) :
    sys.Schedules s (sys.schedule s id delay target event) := by
  refine ⟨fun _ => rfl, rfl, rfl, fun t ht => ?_⟩
  rcases Scheduler.mem_schedule ht with htimer | ht
  · exact .inr (by rw [htimer])
  · exact .inl ht

theorem moves_effect (hkeyed : sys.Keyed) (s : Session) (e : Effect) (rest : List Effect) :
    Moves sys (some (.effects s (e :: rest))) ((effect sys s e).before [.effects s rest]).system
      ((effect sys s e).before [.effects s rest]).frames := by
  -- a call with what is still to be done on its return
  have hcall : ∀ {t c} {x : Delivery} (below : List Frame),
      Calls sys (some (.effects s (e :: rest))) t c (below ++ [.effects s rest]) →
        Answered sys t c x.system x.frames →
          Moves sys (some (.effects s (e :: rest))) ((x.before below).before [.effects s rest]).system
            ((x.before below).before [.effects s rest]).frames := by
    intro t c x below hcalls h
    have hmoves := Moves.call hcalls h
    rw [← before_append] at hmoves
    exact hmoves
  cases e with
  | send recipient event delay id =>
      cases delay with
      | some ms => exact .performed rfl (schedules_schedule sys s id ms recipient event)
      | none =>
          rw [effect]
          cases recipient with
          | actor t => exact hcall [.delivered s] .send (answered_send hkeyed t event)
          | session t =>
              unfold deliver
              simp only
              split
              · exact hcall [.delivered s] .send (answered_send hkeyed _ event)
              · exact Moves.interrupted (g := .delivered s) rfl rfl
  | start t =>
      rw [effect]
      split
      · rename_i hchild
        exact Moves.call (.start hchild) (answered_start hkeyed t)
      · exact .performed rfl ((System.Quiet.refl sys).schedules s)
  | stop t => exact Moves.call .stop (answered_stop hkeyed t)
  | cancel id =>
      have hquiet : sys.Quiet (sys.cancel s id) :=
        ⟨fun _ => rfl, rfl, rfl, fun t ht => Scheduler.mem_of_mem_cancel ht⟩
      exact .performed rfl (hquiet.schedules s)
  | log label value =>
      have hquiet : sys.Quiet (sys.record (.logged label (sys.actor s).id value)) :=
        .of_eq rfl rfl rfl rfl
      exact .performed rfl (hquiet.schedules s)
  | exec name args run =>
      exact Moves.interrupted (g := .script (some s) (run args)) rfl rfl

/-! ## Processing -/

section Process

variable {m : Mailbox} {event : Event} {sys₀ : System}

theorem moves_handleInit (hkeyed : sys.Keyed) (ha : sys.actor? s = some a)
    (hnext : a.mailbox.next = (m, some event)) (hinit : event.name = Event.initName)
    (htook : sys.Puts s { a with mailbox := m } sys₀) :
    Moves sys (some (.drain s)) ((handleInit sys₀ s).before [.drain s]).system
      ((handleInit sys₀ s).before [.drain s]).frames := by
  have hkeyed₀ : sys₀.Keyed := htook.keyed hkeyed (hkeyed s a ha)
  have hputs := System.puts_modify (f := fun a => { a with pending := [] }) hkeyed₀
    (fun _ => rfl) htook.self
  unfold handleInit
  simp only
  rw [htook.actor_self]
  exact Moves.begun (a := a) ha hnext hinit (htook.trans hputs)

theorem moves_handleStop (hsound : sys.Sound) (ha : sys.actor? s = some a)
    (hnext : a.mailbox.next = (m, some event)) (hstop : event.name = Event.stopName)
    (htook : sys.Puts s { a with mailbox := m } sys₀) :
    Moves sys (some (.drain s)) ((handleStop sys₀ s).before [.drain s]).system
      ((handleStop sys₀ s).before [.drain s]).frames := by
  have hsound₀ : sys₀.Sound := hsound.puts htook ha rfl (hsound.suits s a ha)
  have hputs : ∀ {sys₁ sys₂ : System} {next effects},
      Ends sys₀ { a with mailbox := m } sys₁ next effects → sys₁.Quiet sys₂ →
        sys₁.Puts s { a with mailbox := m.close, snapshot := next }
          (sys₂.modify s fun a => { a with snapshot := next, mailbox := a.mailbox.close }) := by
    intro sys₁ sys₂ next effects hends hquiet
    obtain ⟨hthrives, -⟩ := hends.spec hsound₀ htook.self
    have ha₂ : sys₂.actor? s = some { a with mailbox := m } := by
      rw [hquiet.actor? s]
      exact hthrives.grown.kept s _ htook.self
    exact hquiet.puts (System.puts_modify
      (f := fun a => { a with snapshot := next, mailbox := a.mailbox.close })
      (hquiet.keyed hthrives.sound.keyed) (fun _ => rfl) ha₂)
  unfold handleStop
  simp only
  rw [htook.actor_self]
  cases hresult : a.logic.stop spawn (scopeOf sys₀ { a with mailbox := m }) a.snapshot with
  | mk scope result =>
      cases result with
      | ok next =>
          have hends := Ends.ok (a := { a with mailbox := m }) hresult
          exact Moves.stopped ha hnext hstop htook hends (hputs hends (.refl _))
      | error e =>
          have hends := Ends.error (a := { a with mailbox := m }) hresult
          exact Moves.stopped ha hnext hstop htook hends (hputs hends (.of_eq rfl rfl rfl rfl))

/-- A new snapshot is put in place once the behaviour has made it. -/
theorem puts_next {sys₁ : System} (hthrives : sys₀.Thrives sys₁) (ha : sys₀.actor? s = some a)
    (next : Snapshot) : sys₁.Puts s { a with snapshot := next } (sys₁.setSnapshot s next) :=
  System.puts_setSnapshot hthrives.sound.keyed (hthrives.grown.kept s a ha) next

theorem moves_handleEvent (hsound : sys.Sound) (ha : sys.actor? s = some a)
    (hnext : a.mailbox.next = (m, some event)) (hinit : event.name ≠ Event.initName)
    (hstop : event.name ≠ Event.stopName) (htook : sys.Puts s { a with mailbox := m } sys₀) :
    Moves sys (some (.drain s)) ((handleEvent sys₀ s event).before [.drain s]).system
      ((handleEvent sys₀ s event).before [.drain s]).frames := by
  have hsound₀ : sys₀.Sound := hsound.puts htook ha rfl (hsound.suits s a ha)
  unfold handleEvent
  simp only
  rw [htook.actor_self]
  by_cases hactive : a.snapshot.status = .active
  · rw [if_pos hactive]
    cases hresult : a.logic.transition spawn (scopeOf sys₀ { a with mailbox := m }) a.snapshot
        event with
    | mk scope result =>
        -- the step has not touched whoever follows the actor
        have hobservers : ∀ {sys₁ next effects failure},
            Reacts sys₀ { a with mailbox := m } event sys₁ next effects failure →
              (sys₁.actor s).observers = a.observers ∧
                sys₁.Puts s { a with mailbox := m, snapshot := next } (sys₁.setSnapshot s next) := by
          intro sys₁ next effects failure hreacts
          obtain ⟨hthrives, -⟩ := hreacts.spec hsound₀ htook.self
          refine ⟨?_, puts_next hthrives htook.self next⟩
          rw [System.actor_eq (hthrives.grown.kept s _ htook.self)]
        cases result with
        | ok next =>
            have hreacts := Reacts.ok (a := { a with mailbox := m }) hresult
            obtain ⟨hobservers, hputs⟩ := hobservers hreacts
            unfold commit
            simp only
            rw [hobservers]
            exact Moves.reacted ha hnext hinit hstop hactive htook hreacts hputs
        | error e =>
            have hreacts := Reacts.error (a := { a with mailbox := m }) hresult
            obtain ⟨hobservers, hputs⟩ := hobservers hreacts
            unfold abandon commit
            simp only
            rw [hobservers]
            exact Moves.reacted ha hnext hinit hstop hactive htook hreacts hputs
  · rw [if_neg hactive]
    exact Moves.passed ha hnext hinit hstop hactive htook

end Process

theorem moves_drain (hsound : sys.Sound) (ha : sys.actor? s = some a)
    (answer : Except ActorError Unit) : Moves sys (some (.drain s))
      (frame sys answer (.drain s)).system (frame sys answer (.drain s)).frames := by
  rw [frame, System.actor_eq ha]
  cases hnext : a.mailbox.next with
  | mk m next =>
      have htook := System.puts_setMailbox hsound.keyed ha m
      cases next with
      | none => exact .emptied ha hnext htook
      | some event =>
          simp only
          unfold process
          split
          · exact moves_handleInit hsound.keyed ha hnext ‹_› htook
          · split
            · exact moves_handleStop hsound ha hnext ‹_› htook
            · exact moves_handleEvent hsound ha hnext ‹_› ‹_› htook

theorem moves_launch (hsound : sys.Sound) (ha : sys.actor? s = some a) {snapshot : Snapshot}
    (hsuits : snapshot.Suits sys (some s) a.logic) :
    Moves sys (some (.launch s snapshot)) (launch sys s snapshot).system
      (launch sys s snapshot).frames := by
  unfold launch
  simp only
  rw [System.actor_eq ha]
  cases hresult : a.logic.start (scopeOf sys a) snapshot with
  | mk scope result =>
      -- the start has not touched whoever follows the actor
      have hobservers : ∀ {sys₁ next effects failure},
          Launches sys a snapshot sys₁ next effects failure →
            (sys₁.actor s).observers = a.observers ∧
              sys₁.Puts s { a with snapshot := next } (sys₁.setSnapshot s next) := by
        intro sys₁ next effects failure hlaunches
        obtain ⟨hthrives, -⟩ := hlaunches.spec hsound hsuits
        refine ⟨?_, puts_next hthrives ha next⟩
        rw [System.actor_eq (hthrives.grown.kept s a ha)]
      cases result with
      | ok next =>
          obtain ⟨hobservers, hputs⟩ := hobservers (.ok hresult)
          unfold commit
          simp only
          rw [hobservers]
          exact Moves.launched ha (.ok hresult) hputs
      | error e =>
          obtain ⟨hobservers, hputs⟩ := hobservers (.error hresult)
          unfold abandon commit
          simp only
          rw [hobservers]
          exact Moves.launched ha (.error hresult) hputs

/-! ## Winding up -/

theorem moves_settle (s : Session) (snapshot : Snapshot) (failure : Option ActorError) :
    Moves sys (some (.settle s snapshot failure)) (settle sys s snapshot failure).system
      (settle sys s snapshot failure).frames := by
  unfold settle
  simp only
  split
  · rename_i hstatus
    exact .done (.of_eq rfl rfl rfl rfl) hstatus
  · rename_i hstatus
    exact .broken (.refl sys) hstatus
  · rename_i hdone herror
    exact .settled (.refl sys) hdone herror

theorem moves_failed (s : Session) (snapshot : Snapshot) (failure : Option ActorError) :
    Moves sys (some (.failed s snapshot failure)) (failed sys s snapshot failure).system
      (failed sys s snapshot failure).frames := by
  have hnone : ∀ f ∈ ([] : List Frame), f.Plain := by simp
  unfold failed
  simp only
  split
  · split
    · have hnoted : ∀ n, sys.Quiet (sys.note n) := fun _ => .of_eq rfl rfl rfl rfl
      exact Moves.reported ((hnoted _).trans (quiet_recordUnhandled _ _)) hnone
    · exact Moves.reported (.refl sys) hnone
  · exact Moves.reported (.refl sys) (plain_singleton (f := .notify _ (.error _)) ⟨rfl, rfl⟩)

theorem moves_halt (hkeyed : sys.Keyed) (ha : sys.actor? s = some a) :
    Moves sys (some (.halt s)) (halt sys s).system (halt sys s).frames := by
  unfold halt
  simp only
  rw [System.actor_eq ha]
  exact .halted ha (System.puts_setMailbox hkeyed ha _)

theorem moves_retire (sys : System) (s : Session) :
    Moves sys (some (.retire s)) (retire sys s) [] := by
  have htimers : ∀ t ∈ (sys.scheduler.cancelOwner s).1.timers,
      t ∈ sys.scheduler.timers ∧ t.2.owner ≠ s := by
    intro t ht
    obtain ⟨ht, howner⟩ := List.mem_filter.mp ht
    exact ⟨ht, by simpa using howner⟩
  unfold retire System.unregister
  simp only
  split
  · exact .retired (fun _ => rfl) rfl rfl htimers
  · split <;> exact .retired (fun _ => rfl) rfl rfl htimers

theorem moves_finish (hkeyed : sys.Keyed) (ha : sys.actor? s = some a) :
    Moves sys (some (.finish s)) (finish sys s).system (finish sys s).frames := by
  unfold finish
  rw [System.actor_eq ha]
  exact .finished ha
    (System.puts_modify (f := fun a => { a with observers := [] }) hkeyed (fun _ => rfl) ha)

theorem moves_tellParent (hkeyed : sys.Keyed) (s : Session) (event : Event) :
    Moves sys (some (.tellParent s event)) (tellParent sys s event).system
      (tellParent sys s event).frames := by
  unfold tellParent
  split
  · rename_i parent hparent
    obtain ⟨p, hp, hlookup⟩ := Option.bind_eq_some_iff.mp hparent
    obtain rfl : p = parent := Option.some.inj (Option.ite_none_right_eq_some.mp hlookup).2
    have hmoves := Moves.call (.tell hp) (answered_send hkeyed p event)
    rwa [before_nil] at hmoves
  · exact .untold (.refl sys)

/-! ## Observers, scripts and timers -/

theorem quiet_notifyOne (sys : System) (number : Nat) (o : Observer) (what : Notification) :
    sys.Quiet (notifyOne sys number o what).system ∧
      ∀ g ∈ (notifyOne sys number o what).frames, g.Plain := by
  have hscript : ∀ body, ∀ g ∈ [Frame.script none body], g.Plain :=
    fun _ => plain_singleton ⟨rfl, rfl⟩
  unfold notifyOne
  cases what with
  | next snapshot =>
      simp only
      split
      · exact ⟨.of_eq rfl rfl rfl rfl, hscript _⟩
      · exact ⟨.of_eq rfl rfl rfl rfl, by simp [done]⟩
  | error e =>
      simp only
      split
      · exact ⟨.refl sys, hscript _⟩
      · exact ⟨.refl sys, by simp [done]⟩
  | complete =>
      simp only
      split
      · exact ⟨.refl sys, hscript _⟩
      · exact ⟨.refl sys, by simp [done]⟩

/-- A script that goes on without a call. -/
theorem Moves.scripted {f : Frame} {owner : Option Session}
    {next : Script (Except ActionError Unit)} {sys' : System}
    (hf : f.stage = owner.map fun s => (s, .aside)) (horders : f.orders = [])
    (hquiet : sys.Quiet sys') : Moves sys (some f) sys' [.script owner next] := by
  cases owner with
  | none => exact .plain ⟨hf, horders⟩ hquiet (plain_singleton ⟨rfl, rfl⟩)
  | some s => exact .resumed (s := s) hf hquiet (.inr ⟨.script (some s) next, rfl, rfl⟩)

/-- An actor gets an event of its own, to be taken later. -/
theorem moves_enqueueSelf (hkeyed : sys.Keyed) (ha : sys.actor? s = some a) {f : Frame}
    (hf : f.Aside s) (event : Event) : Moves sys (some f) (enqueueSelf sys s event) [] := by
  unfold enqueueSelf
  rw [System.actor_eq ha]
  exact .posted hf ha (System.puts_setMailbox hkeyed ha _)

theorem moves_afterSend (hkeyed : sys.Keyed) (ha : sys.actor? s = some a)
    (answer : Except ActorError Unit) :
    Moves sys (some (.delivered s)) (afterSend sys s answer) [] := by
  unfold afterSend
  split
  · exact .resumed (s := s) rfl (.refl sys) (.inl rfl)
  · split
    · exact .resumed (s := s) rfl (quiet_recordUnhandled sys _) (.inl rfl)
    · exact moves_enqueueSelf hkeyed ha (f := .delivered s) rfl _

theorem moves_script (hkeyed : sys.Keyed) {owner : Option Session}
    (howner : ∀ s, owner = some s → ∃ a, sys.actor? s = some a)
    (body : Script (Except ActionError Unit)) :
    Moves sys (some (.script owner body)) (script sys owner body).system
      (script sys owner body).frames := by
  cases body with
  | done result =>
      cases owner with
      | none =>
          have hplain : (Frame.script none (.done result)).Plain := ⟨rfl, rfl⟩
          cases result <;> exact .vanished hplain (.refl sys)
      | some s =>
          cases result with
          | ok _ => exact .resumed (s := s) rfl (.refl sys) (.inl rfl)
          | error e =>
              obtain ⟨a, ha⟩ := howner s rfl
              exact moves_enqueueSelf hkeyed ha (f := .script (some s) (.done (.error e))) rfl _
  | report line next => exact .scripted rfl rfl (.of_eq rfl rfl rfl rfl)
  | call name request next =>
      rw [script]
      split
      · exact .scripted rfl rfl (.refl sys)
      · exact Moves.call .script (answered_call hkeyed _ request)

theorem moves_fire (hkeyed : sys.Keyed) (time : Nat) (moving : Bool) :
    Moves sys (some (.fire time moving)) (fire sys time moving).system
      (fire sys time moving).frames := by
  have hplain : (Frame.fire time moving).Plain := ⟨rfl, rfl⟩
  unfold fire
  split
  · exact .vanished hplain (.refl sys)
  · rename_i timer scheduler hdue
    simp only
    generalize hsys : (if moving then _ else _ : System) = sys₁
    have hquiet : sys.Quiet sys₁ := by
      have htimers : ∀ t ∈ scheduler.timers, t ∈ sys.scheduler.timers :=
        fun t ht => Scheduler.mem_of_mem_popDue hdue ht
      rw [← hsys]
      split <;> exact ⟨fun _ => rfl, rfl, rfl, htimers⟩
    unfold fireTimer
    simp only
    split
    · rename_i t _
      have hsend := answered_send (hquiet.keyed hkeyed) t timer.event
      rw [before_append]
      exact .called .fire hquiet hsend
    · exact .plain hplain hquiet (plain_singleton hplain)

theorem quiet_afterFire (sys : System) (s : Session) (answer : Except ActorError Unit) :
    sys.Quiet (afterFire sys s answer) := by
  unfold afterFire
  split
  · exact .refl sys
  · exact .of_eq rfl rfl rfl rfl

theorem quiet_leave (sys : System) : sys.Quiet sys.leave.1 := by
  unfold System.leave
  simp only
  split <;> exact .of_eq rfl rfl rfl rfl

/-! ## All frames -/

/-- Whatever frame is on top, a step makes one of these moves. -/
theorem moves_frame (hsound : sys.Sound) {top : Frame}
    (hknown : ∀ s x, top.stage = some (s, x) → ∃ a, sys.actor? s = some a)
    (hsuits : ∀ s snapshot a, top = .launch s snapshot → sys.actor? s = some a →
      snapshot.Suits sys (some s) a.logic) (answer : Except ActorError Unit) :
    Moves sys (some top) (frame sys answer top).system (frame sys answer top).frames := by
  have hkeyed := hsound.keyed
  cases top with
  | drain s =>
      obtain ⟨a, ha⟩ := hknown s _ rfl
      exact moves_drain hsound ha answer
  | effects s rest =>
      cases rest with
      | nil => exact .exhausted (.refl sys)
      | cons e rest => exact moves_effect hkeyed s e rest
  | delivered s =>
      obtain ⟨a, ha⟩ := hknown s _ rfl
      exact moves_afterSend hkeyed ha answer
  | launch s snapshot =>
      obtain ⟨a, ha⟩ := hknown s _ rfl
      exact moves_launch hsound ha (hsuits s snapshot a rfl ha)
  | notify observers what =>
      cases observers with
      | nil => exact .vanished ⟨rfl, rfl⟩ (.refl sys)
      | cons o rest =>
          obtain ⟨hquiet, hplain⟩ := quiet_notifyOne sys o.1 o.2 what
          exact .plain ⟨rfl, rfl⟩ hquiet
            (List.forall_mem_append.mpr ⟨hplain, plain_singleton ⟨rfl, rfl⟩⟩)
  | settle s snapshot failure => exact moves_settle s snapshot failure
  | failed s snapshot failure => exact moves_failed s snapshot failure
  | halt s =>
      obtain ⟨a, ha⟩ := hknown s _ rfl
      exact moves_halt hkeyed ha
  | stopAll sessions =>
      cases sessions with
      | nil => exact .vanished ⟨rfl, rfl⟩ (.refl sys)
      | cons t rest => exact Moves.call .stopAll (answered_stop hkeyed t)
  | retire s => exact moves_retire sys s
  | finish s =>
      obtain ⟨a, ha⟩ := hknown s _ rfl
      exact moves_finish hkeyed ha
  | tellParent s event => exact moves_tellParent hkeyed s event
  | script owner body =>
      refine moves_script hkeyed (fun s hs => ?_) body
      subst hs
      exact hknown s _ rfl
  | resume owner target next => exact .scripted rfl rfl (.refl sys)
  | keep sessions => exact .vanished ⟨rfl, rfl⟩ (.refl sys)
  | leave => exact .vanished ⟨rfl, rfl⟩ (quiet_leave sys)
  | reply result => exact .vanished ⟨rfl, rfl⟩ (.refl sys)
  | fire time moving => exact moves_fire hkeyed time moving
  | fired s => exact .vanished ⟨rfl, rfl⟩ (quiet_afterFire sys s answer)
  | arrive time => exact .vanished ⟨rfl, rfl⟩ (.of_eq rfl rfl rfl rfl)

end Frames

end Delivery

end Statechart
