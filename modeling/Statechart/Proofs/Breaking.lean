import Statechart.Proofs.Reacting
import Statechart.Proofs.Sparing

/-!
# Actors that break

A machine that takes an error for which nothing is selected fails with the data of that error
(`Machine.transition_fails`). When the step of an actor ends so and asks for nothing else
(`Delivery.Breaks`), the actor is closed with its last snapshot (`Delivery.Breaks.fails`), and then
reports its failure: without a parent to the caller (`Delivery.failed_root`), else to its parent
(`Delivery.failed_child`).
-/

namespace Statechart

/-- What a snapshot is when its machine has failed. -/
structure MachineSnapshot.Broken (s : MachineSnapshot) (data : Json) : Prop where
  status : s.status = .error
  error : s.error = some data

namespace Machine

open StepM

variable {m : Machine} {scope scope' : Scope} {s next : MachineSnapshot} {event : Event} {w : Work}

/-! ## Steps -/

/-- Where nothing is selected for an error, the machine fails. -/
theorem handle_fails (hselect : m.definition.select (m.situation w.snapshot) event = .ok [])
    (herror : event.isError = true) : m.handle event w = .ok () { w with
      snapshot := { w.snapshot with status := .error, error := some event.data }
      journal := .handled event [] :: w.journal } := by
  rw [handle, bind_of_ok (get_ok w)]
  simp only [hselect, herror, List.isEmpty_nil, if_true]
  rfl

/-- A machine that has nothing left to do and takes an error that nothing is selected for fails. -/
theorem settle_fails (hrests : m.Rests event w)
    (hselect : m.definition.select (m.situation w.snapshot) event = .ok [])
    (herror : event.isError = true) (fuel : Nat) : ∃ w',
      m.settle (fuel + 2) (some event) event w = .ok () w' ∧ w'.scope = w.scope ∧
        w'.snapshot.Broken event.data ∧ w'.snapshot.children.Sublist w.snapshot.children := by
  obtain ⟨children, hrelease, hsublist⟩ := releaseCompleted_sublist event w
  let released : Work := { w with snapshot := { w.snapshot with children } }
  let failed : Work := { released with
    snapshot := { released.snapshot with status := .error, error := some event.data }
    journal := .handled event [] :: w.journal }
  have hhandle : m.handle event released = .ok () failed := handle_fails hselect herror
  refine ⟨failed, ?_, rfl, ⟨rfl, rfl⟩, hsublist⟩
  rw [settle_of_rests hrests, bind_of_ok hrelease, bind_of_ok hhandle]
  rfl

theorem transition_fails (hactive : s.status = .active)
    (heventless : m.definition.selectEventless (m.situation s) event = .ok [])
    (hselect : m.definition.select (m.situation s) event = .ok [])
    (herror : event.isError = true) (scope : Scope) : ∃ next,
      m.transition scope s event = (scope, .ok next) ∧ next.Broken event.data ∧
        next.children.Sublist s.children := by
  obtain ⟨fuel, hfuel⟩ : ∃ fuel, patience = fuel + 2 := ⟨patience - 2, rfl⟩
  obtain ⟨w, hrun, hscope, hbroken, hsublist⟩ := settle_fails (m := m)
    (w := begin { scope with system := scope.system.pinning (s.children.map Prod.snd) } s)
    ⟨hactive, heventless, rfl⟩ hselect herror fuel
  refine ⟨finish (some s) w.snapshot, ?_, ⟨hbroken.status, hbroken.error⟩, hsublist⟩
  have hmacrostep : m.transitionRun scope s event = .ok () w := by
    rw [transitionRun, runStep, macrostep, hfuel, hrun]
  rw [transition, if_pos hactive, hmacrostep, outcome, hscope]
  rfl

/-- A step that asks for nothing makes no children. -/
theorem transition_childless (h : m.transition scope s event = (scope', .ok next))
    (hnone : scope'.effects = []) : next.children ⊆ s.children := by
  -- a child is made together with the effect that starts it, and no effect is taken back
  let p (w : Work) : Prop := w.scope.effects = [] → w.snapshot.children ⊆ s.children
  have hacts : ∀ {w w' : Work}, m.Acts w w' → p w → p w' := by
    intro w w' hacts hw
    cases hacts with
    | asked | spawned | stopped => exact fun hnil => absurd hnil (by simp)
    | _ => exact hw
  have hproceeds : ∀ w w', m.Proceeds (some event) w w' → p w → p w' := by
    intro w w' hproceeds hw
    cases hproceeds with
    | acted h => exact hacts h hw
    | released =>
        exact fun hnil c hc => hw hnil (List.mem_of_mem_filter hc)
    | _ => exact hw
  unfold transition at h
  split at h
  · obtain ⟨w, hscope, ⟨e, -, herror⟩ | ⟨hrun, hok⟩⟩ := outcome_cases h
    · cases herror
    · cases hok
      have hruns : Runs (m.Proceeds (some event)) (m.macrostep (some event) event) := runs_macrostep
      have hall := hruns.runsFrom hproceeds
        (begin { scope with system := scope.system.pinning (s.children.map Prod.snd) } s)
        fun _ => List.Subset.refl _
      rw [after_of_ok hrun] at hall
      exact hall.2 (by rw [hscope] at hnone; exact hnone)
  · cases h
    exact List.Subset.refl _

end Machine

/-- What an actor is that has failed with some data. -/
structure Actor.Failed (a : Actor) (data : Json) : Prop where
  stopped : a.status = .stopped
  status : a.snapshot.status = .error
  error : a.snapshot.error = some data

namespace Delivery

variable {d e : Delivery} {s p : Session} {a b : Actor} {rest : List Frame} {data : Json}
  {m : Machine} {t next : MachineSnapshot}

/-! ## Reports -/

/-- The event by which an actor tells its parent that it has failed. -/
def report (a : Actor) (data : Json) : Event := fromChild a (.errorPlatform a.id data)

/-- The report is the same whatever has become of the actor. -/
theorem report_becomes {a a' : Actor} (h : a.Becomes a') (data : Json) :
    report a' data = report a data := by
  rw [h]
  rfl

/-- A failure that no observer takes is reported. -/
theorem failed_unobserved {sys : System} (ha : sys.actor? s = some a)
    (hunobserved : a.observers = []) (herror : next.error = some data) :
    failed sys s (.machine next) none =
      doing (if a.parent.isNone then
          (sys.note (.unhandledActorError a.id
            (ActorError.unhandled a.id data).message)).recordUnhandled (.unhandled a.id data)
        else sys) [.tellParent s (report a data)] := by
  unfold failed
  simp only
  rw [System.actor_eq ha, hunobserved, List.filter_nil,
    show Snapshot.error (.machine next) = some data from herror]
  cases a.parent.isNone <;> rfl

/-- A failure of an actor without a parent is kept for the caller. -/
theorem failed_root (hd : d.Regular) (hframes : d.frames = .failed s (.machine next) none :: rest)
    (hleaves : 0 < leaves rest) (herror : next.error = some data) (ha : d.system.actor? s = some a)
    (hunobserved : a.observers = []) (hparent : a.parent = none) :
    ∃ e, Within 2 d e ∧ e.frames = rest ∧ (∀ c, e.system.actor? c = d.system.actor? c) ∧
      e.system.unhandled = d.system.unhandled ++ [.unhandled a.id data] := by
  let e : ActorError := .unhandled a.id data
  let noted := d.pinned.note (.unhandledActorError a.id e.message)
  have hdepth : noted.depth ≠ 0 := by
    have hcount : noted.depth = leaves (.failed s (.machine next) none :: rest) :=
      hframes ▸ hd.attuned.depth
    have hnone : leaves (.failed s (.machine next) none :: rest) = leaves rest := rfl
    omega
  let e₁ := doing { noted with unhandled := d.system.unhandled ++ [e] }
    (.tellParent s (report a data) :: rest)
  have ha' : d.pinned.actor? s = some a := ha
  have h₁ : d.step = e₁ := by
    rw [step_pinned hframes, frame, failed_unobserved ha' hunobserved herror,
      hparent, Option.isNone_none, if_pos rfl, System.recordUnhandled, if_neg hdepth]
    rfl
  have h₂ : e₁.step = doing e₁.pinned rest := by
    have hself : e₁.pinned.actor? s = some a := ha
    rw [step_pinned rfl, frame, tellParent, System.actor_eq hself, hparent]
    rfl
  exact ⟨_, (within_step h₁).trans (within_step h₂), rfl, fun c => rfl, rfl⟩

/-- A failure of a child is sent to its parent, which works it off at once. -/
theorem failed_child (hd : d.Regular) (hframes : d.frames = .failed s (.machine next) none :: rest)
    (herror : next.error = some data) (ha : d.system.actor? s = some a)
    (hunobserved : a.observers = []) (hparent : a.parent = some p)
    (hb : d.system.actor? p = some b) (hrunning : b.status = .running)
    (hfree : b.mailbox.flushing = false) (hkept : System.Kept { d.system with pins := [] } p)
    (haccepts : b.logic.accepts spawn (report a data) = .ok ()) :
    ∃ e, Leads p 2 d e ∧ e.frames = .drain p :: .leave :: rest ∧ e.system.actor? p =
      some { b with mailbox := { b.mailbox.push (report a data) with flushing := true } } := by
  have hkeyed := (quiet_pinned d).keyed hd.reached.sound.system.keyed
  have ha' : d.pinned.actor? s = some a := ha
  let e₁ := doing d.pinned (.tellParent s (report a data) :: rest)
  have h₁ : Leads p 1 d e₁ := by
    refine leads_step (x := doing d.pinned [.tellParent s (report a data)]) hframes ?_
      (System.spares_of_eq rfl rfl rfl rfl rfl)
    rw [frame, failed_unobserved ha' hunobserved herror, hparent]
    rfl
  have hfound : e₁.pinned.lookup? p = some p :=
    hd.reached.finds hb (fun hstopped => by rw [hrunning] at hstopped; cases hstopped) hkept _
  have hself : e₁.pinned.actor? s = some a := ha
  have hkeyed₁ : e₁.pinned.Keyed := hkeyed
  obtain ⟨hsent, hactor, hspares⟩ := send_running hkeyed₁ hb haccepts hrunning hfree
  have h₂ : Leads p 1 e₁ ((send e₁.pinned p (report a data)).before rest) := by
    refine leads_step rfl ?_ hspares
    rw [frame, tellParent, System.actor_eq hself, hparent, Option.bind_some, hfound]
  exact ⟨_, h₁.trans h₂, by rw [before, hsent]; rfl, hactor⟩

theorem startsWith_report (a : Actor) (data : Json) :
    Text.startsWith Event.platformErrorStart (report a data).name = true := by
  show Text.startsWith Event.platformErrorStart (Event.platformErrorStart ++ a.id) = true
  simp [Text.startsWith, Text.after?_append]

theorem isError_report (a : Actor) (data : Json) : (report a data).isError = true :=
  Bool.or_eq_true_iff.mpr (.inr (startsWith_report a data))

/-- A strict machine takes the report as well. -/
theorem accepts_report (m : Machine) (a : Actor) (data : Json) :
    m.accepts (report a data) = .ok () := by
  have hbuiltin : (report a data).isBuiltin = true := by
    simp [Event.isBuiltin, Event.isReserved, startsWith_report a data]
  rw [Machine.accepts, hbuiltin]
  simp

/-- The report is no signal to the actor itself. -/
theorem report_name (a : Actor) (data : Json) :
    (report a data).name ≠ Event.initName ∧ (report a data).name ≠ Event.stopName := by
  constructor <;> intro h <;>
  · have hchars := congrArg String.toList h
    simp [report, fromChild, Event.errorPlatform, Event.platform, Event.platformErrorStart,
      Event.initName, Event.stopName] at hchars

/-! ## Taking an event -/

/-- An actor that nobody follows runs, and its machine is active. -/
structure Working (d : Delivery) (p : Session) (m : Machine) (t : MachineSnapshot) : Prop where
  machine : d.machine? p = some (m, t)
  running : (d.system.actor p).status = .running
  active : t.status = .active
  unobserved : (d.system.actor p).observers = []

theorem Working.actor (h : d.Working p m t) : ∃ b, d.system.actor? p = some b ∧
    b.logic = .machine m.definition m.implementations ∧ m.spawn = spawn ∧
      b.snapshot = .machine t ∧ b.status = .running ∧ b.observers = [] := by
  obtain ⟨hmachine, hrunning, -, hunobserved⟩ := h
  cases hb : d.system.actor? p with
  | none =>
      rw [System.actor, hb] at hrunning
      cases hrunning
  | some b =>
      rw [System.actor_eq hb] at hrunning hunobserved
      rw [machine?, System.actor_eq hb] at hmachine
      split at hmachine <;> cases hmachine
      rename_i hlogic hsnapshot
      exact ⟨b, rfl, hlogic, rfl, hsnapshot, hrunning, hunobserved⟩

/-- All that counts is how the actor is. -/
theorem Working.same (h : d.Working p m t) {b b' : Actor} (hb : d.system.actor? p = some b)
    (hb' : e.system.actor? p = some b') (hlogic : b'.logic = b.logic)
    (hsnapshot : b'.snapshot = b.snapshot) (hstatus : b'.status = b.status)
    (hobservers : b'.observers = b.observers) : e.Working p m t := by
  obtain ⟨hmachine, hrunning, hactive, hunobserved⟩ := h
  rw [machine?, System.actor_eq hb] at hmachine
  rw [System.actor_eq hb] at hrunning hunobserved
  refine ⟨?_, ?_, hactive, ?_⟩
  · rw [machine?, System.actor_eq hb', hlogic, hsnapshot]
    exact hmachine
  · rw [System.actor_eq hb', hstatus, hrunning]
  · rw [System.actor_eq hb', hobservers, hunobserved]

theorem Working.reacting {event : Event} (h : d.Working s m t) (hframes : d.frames = .drain s :: rest)
    (hqueue : (d.system.actor s).mailbox.queue = [event]) (hinit : event.name ≠ Event.initName)
    (hstop : event.name ≠ Event.stopName) : d.Reacting s event := by
  obtain ⟨a, ha, -, -, hsnapshot, -⟩ := h.actor
  refine ⟨?_, hinit, hstop, ?_⟩
  · rw [taking, hframes, List.head?_cons, (takes_drain ha).1, ← System.actor_eq ha, hqueue]
    rfl
  · rw [System.actor_eq ha, hsnapshot]
    exact h.active

/-- The next snapshot is in place, and is to be settled. -/
def committed (sys : System) (s : Session) (a : Actor) (next : MachineSnapshot)
    (rest : List Frame) : Delivery :=
  doing (sys.setSnapshot s (.machine next)) (.effects s [] :: .notify [] (.next (.machine next)) ::
    .settle s (.machine next) none :: .keep a.snapshot.sessions :: .drain s :: rest)

theorem handleEvent_commits {sys : System} {event : Event} {scope : Scope}
    (ha : sys.actor? s = some a) (hlogic : a.logic = .machine m.definition m.implementations)
    (hspawn : m.spawn = spawn) (hsnapshot : a.snapshot = .machine t) (hactive : t.status = .active)
    (hnobody : a.observers = [])
    (htransition : m.transition (scopeOf sys a) t event = (scope, .ok next))
    (hself : scope.system.actor? s = some a) (heffects : scope.effects = []) :
    (handleEvent sys s event).before (.drain s :: rest) = committed scope.system s a next rest := by
  have hworks : a.logic.transition spawn (scopeOf sys a) a.snapshot event =
      (scope, .ok (.machine next)) := by
    obtain ⟨definition, implementations, _⟩ := m
    obtain rfl : _ = spawn := hspawn
    rw [hlogic, hsnapshot, Logic.transition, htransition]
    rfl
  have hactive : a.snapshot.status = .active := by
    rw [hsnapshot]
    exact hactive
  rw [handleEvent, System.actor_eq ha]
  simp only
  rw [if_pos hactive, hworks]
  simp only
  rw [commit, System.actor_eq hself, hnobody, heffects]
  rfl

/-- When a step asks for nothing, all it does is to put the next snapshot in place. -/
theorem Working.commits {event : Event} {scope : Scope} (hworking : d.Working s m t)
    (hd : d.Regular) (hframes : d.frames = .drain s :: rest)
    (hqueue : (d.system.actor s).mailbox.queue = [event]) (hinit : event.name ≠ Event.initName)
    (hstop : event.name ≠ Event.stopName)
    (htransition : m.transition (d.stepScope s) t event = (scope, .ok next))
    (heffects : scope.effects = []) : ∃ e a kept, Leads s 1 d e ∧
      e.frames = .effects s [] :: .notify [] (.next (.machine next)) ::
        .settle s (.machine next) none :: .keep kept :: .drain s :: rest ∧
      e.system.actor? s = some a ∧ a.status = .running ∧ a.observers = [] ∧
      a.snapshot = .machine next := by
  obtain ⟨a, ha, hlogic, hspawn, hsnapshot, hrunning, hnobody⟩ := hworking.actor
  have hreacting := hworking.reacting hframes hqueue hinit hstop
  -- the scope of the step is that of the actor, in a system in which only its mailbox has moved on
  obtain ⟨sys, hquiet, hscope, hputs⟩ := stepScope_puts hd.reached.sound ha
  let working : Actor := { a with mailbox := a.mailbox.next.1 }
  have ha₀ := (hquiet.actor? s).trans ha
  have hquieted := hd.reached.sound.system.quiet hquiet
  have hsound : (d.stepScope s).system.Sound :=
    hquieted.puts hputs ha₀ rfl (hquieted.suits s a ha₀)
  have hthrives := Machine.transition_thrives htransition (hspawn ▸ sound_spawn) hsound
  have hpeopled := Machine.transition_peopled htransition (hspawn ▸ sound_spawn)
    (hspawn ▸ peoples_spawn) hsound
  have hself : scope.system.actor? s = some working := hthrives.grown.kept s _ hputs.self
  have hstep : d.step = committed scope.system s working next rest := by
    obtain ⟨rest', hframes', hstep⟩ := step_handles hreacting
    obtain rfl : rest' = rest := by
      rw [hframes] at hframes'
      exact (List.cons.inj hframes').2.symm
    rw [hstep]
    exact handleEvent_commits hputs.self hlogic hspawn hsnapshot hworking.active hnobody
      (hscope ▸ htransition) hself heffects
  have hspares : d.system.Spares s (committed scope.system s working next rest).system := by
    have hkeyed := (quiet_pinned d).keyed hd.reached.sound.system.keyed
    have htaken : d.pinned.Spares s (d.stepScope s).system := System.spares_setMailbox hkeyed s _
    exact (((spares_pinned d s).trans htaken).trans
      (System.spares_peopled hpeopled hthrives.grown)).trans
        (System.spares_setSnapshot hthrives.sound.keyed s _)
  refine ⟨_, _, _, ⟨within_step hstep, hspares⟩, rfl,
    (System.puts_setSnapshot hthrives.sound.keyed hself (.machine next)).self, ?_, hnobody, rfl⟩
  exact (Mailbox.next_status rfl).trans hrunning

/-! ## Breaking -/

/-- The mailbox of an actor is worked off, and the last event in it breaks the machine, which asks
for nothing else. -/
inductive Breaks (d : Delivery) (s : Session) (data : Json) (rest : List Frame) : Prop
  | intro {m : Machine} {t next : MachineSnapshot} {event : Event} {scope : Scope}
      (hworking : d.Working s m t) (hframes : d.frames = .drain s :: rest)
      (hqueue : (d.system.actor s).mailbox.queue = [event])
      (hinit : event.name ≠ Event.initName) (hstop : event.name ≠ Event.stopName)
      (h : m.transition (d.stepScope s) t event = (scope, .ok next))
      (heffects : scope.effects = []) (hbroken : next.Broken data)
      (hstopped : ∀ c ∈ next.children, (d.system.actor c.2).status = .stopped)
      (hfew : next.children.length ≤ 1) : Breaks d s data rest

/-- A machine has broken, and its actor is still to hear of it: it runs on with the last snapshot,
and its children have stopped. -/
structure Spent (d : Delivery) (s : Session) (data : Json) (a : Actor) (next : MachineSnapshot) :
    Prop where
  actor : d.system.actor? s = some a
  running : a.status = .running
  unobserved : a.observers = []
  snapshot : a.snapshot = .machine next
  broken : next.Broken data
  stopped : ∀ c ∈ next.children, (d.system.actor c.2).status = .stopped
  few : next.children.length ≤ 1

/-- The step puts the last snapshot of the machine in place, and the actor is settled next. -/
theorem Breaks.commits (h : d.Breaks s data rest) (hd : d.Regular) : ∃ e a next kept,
    Leads s 3 d e ∧ e.frames = .settle s (.machine next) none :: .keep kept :: .drain s :: rest ∧
      e.Spent s data a next := by
  obtain @⟨m, t, next, event, scope, hworking, hframes, hqueue, hinit, hstop, htransition, heffects,
    hbroken, hstopped, hfew⟩ := h
  obtain ⟨d₁, a, kept, h₁, hframes₁, ha, hrunning, hnobody, hsnapshot⟩ :=
    hworking.commits hd hframes hqueue hinit hstop htransition heffects
  -- there are no effects and no observers
  let rest' := .settle s (.machine next) none :: .keep kept :: .drain s :: rest
  let d₂ := doing d₁.pinned (.notify [] (.next (.machine next)) :: rest')
  have h₂ : Leads s 1 d₁ d₂ := leads_done s hframes₁ rfl
  have h₃ : Leads s 1 d₂ (doing d₂.pinned rest') := leads_done s rfl rfl
  have hleads := (h₁.trans h₂).trans h₃
  refine ⟨_, a, next, kept, hleads, rfl, ha, hrunning, hnobody, hsnapshot, hbroken, fun c hc => ?_,
    hfew⟩
  have hne : c.2 ≠ s := by
    intro heq
    have hrunning := hworking.running
    rw [← heq, hstopped c hc] at hrunning
    cases hrunning
  rw [hleads.spares.stopped hne (hstopped c hc)]
  exact hstopped c hc

/-- An actor whose machine breaks is closed with its last snapshot, and then its failure is
reported. -/
theorem Breaks.fails (h : d.Breaks s data rest) (hd : d.Regular) : ∃ e a next kept,
    Leads s 8 d e ∧ e.frames = .failed s (.machine next) none :: .keep kept :: .drain s :: rest ∧
      next.error = some data ∧ e.system.actor? s = some a ∧ (d.system.actor s).Becomes a ∧
        a.Failed data ∧ a.mailbox.queue = [] ∧ a.observers = [] := by
  obtain ⟨a₀, ha₀⟩ : ∃ a₀, d.system.actor? s = some a₀ := by
    obtain ⟨hworking, -⟩ := h
    obtain ⟨a₀, ha₀, -⟩ := hworking.actor
    exact ⟨a₀, ha₀⟩
  obtain ⟨d₁, a, next, kept, h₁, hframes, hspent⟩ := h.commits hd
  obtain ⟨ha, hrunning, hnobody, hsnapshot, hbroken, hstopped, hfew⟩ := hspent
  have hchildren : ∀ c ∈ a.snapshot.sessions, (d₁.system.actor c).status = .stopped := by
    intro c hc
    rw [hsnapshot] at hc
    obtain ⟨entry, hentry, rfl⟩ := List.mem_map.mp hc
    exact hstopped entry hentry
  -- its children have stopped, so nothing holds the closing up
  obtain ⟨d₂, h₂, hframes₂, ha₂⟩ := winds_up (h₁.within.regular hd) hframes hbroken.status ha
    (fun hstopped => by rw [hrunning] at hstopped; cases hstopped) hchildren
  have hlength : a.snapshot.sessions.length ≤ 1 := by
    rw [hsnapshot]
    exact (List.length_map _).trans_le hfew
  have hleads := h₁.trans h₂
  obtain ⟨a', ha', hbecomes⟩ := (hleads.within.follows hd).actor s a₀ ha₀
  obtain rfl := Option.some.inj (ha'.symm.trans ha₂)
  refine ⟨d₂, _, next, kept, ⟨hleads.within.mono (by omega), hleads.spares⟩, hframes₂,
    hbroken.error, ha₂, by rwa [System.actor_eq ha₀], ⟨rfl, ?_, ?_⟩, rfl, hnobody⟩
  · show a.snapshot.status = .error
    rw [hsnapshot]
    exact hbroken.status
  · show a.snapshot.error = some data
    rw [hsnapshot]
    exact hbroken.error

end Delivery

end Statechart
