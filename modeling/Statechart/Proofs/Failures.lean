import Statechart.Proofs.Performing
import Statechart.Proofs.Runs

/-!
# Failing assignments

What becomes of the error events that failing assignments raise. The journal of a step tells which
events wait (`waiting`) and so which taking of an event is that of a given raised one (`Takes`).
In a macrostep that goes through, every failure is answered by a transition or fails the machine,
unless the machine is done before the turn of its event comes (`Machine.failures_answered`); then
nothing is left of it (`Machine.failure_lost`).
-/

namespace Statechart

/-! ## The queue by the journal -/

/-- The internal events that wait after what a journal, latest first, tells. -/
def waiting : List Mark → List Event
  | [] => []
  | .raised event :: earlier => waiting earlier ++ [event]
  | .handled _ _ :: earlier => (waiting earlier).tail
  | _ :: earlier => waiting earlier

/-- How many events have been taken. -/
def takings : List Mark → Nat
  | [] => 0
  | .handled _ _ :: earlier => takings earlier + 1
  | _ :: earlier => takings earlier

/-- An event that was raised after `earlier` still waits after `later`. -/
structure Waits (event : Event) (earlier later : List Mark) : Prop where
  queued : ∃ ahead behind, waiting (later ++ .raised event :: earlier) = ahead ++ event :: behind ∧
    takings later + ahead.length = (waiting earlier).length

/-- An event that was raised after `earlier` was taken in `later`, when all that waited before it
had been, and `selected` was selected for it. -/
structure Takes (event : Event) (selected : List Nat) (earlier later : List Mark) : Prop where
  taken : ∃ before after, later = after ++ .handled event selected :: before ∧
    (waiting (before ++ .raised event :: earlier)).head? = some event ∧
      takings before = (waiting earlier).length

theorem Mark.Plain.waiting {k : Mark} (h : k.Plain) (journal : List Mark) :
    waiting (k :: journal) = waiting journal := by
  cases k <;> first | rfl | cases h

theorem Mark.Plain.takings {k : Mark} (h : k.Plain) (journal : List Mark) :
    takings (k :: journal) = takings journal := by
  cases k <;> first | rfl | cases h

/-- What is raised waits. -/
theorem Waits.raised (event : Event) (earlier : List Mark) : Waits event earlier [] :=
  ⟨⟨waiting earlier, [], rfl, by simp [takings]⟩⟩

variable {event next : Event} {selected : List Nat} {earlier later : List Mark} {k : Mark}

theorem Waits.plain (h : Waits event earlier later) (hk : k.Plain) :
    Waits event earlier (k :: later) := by
  obtain ⟨ahead, behind, hwaiting, hlength⟩ := h.queued
  exact ⟨⟨ahead, behind, by rw [List.cons_append, hk.waiting, hwaiting],
    by rw [hk.takings, hlength]⟩⟩

theorem Waits.behind (h : Waits event earlier later) (other : Event) :
    Waits event earlier (.raised other :: later) := by
  obtain ⟨ahead, behind, hwaiting, hlength⟩ := h.queued
  refine ⟨⟨ahead, behind ++ [other], ?_, hlength⟩⟩
  rw [List.cons_append, waiting, hwaiting, List.append_assoc, List.cons_append]

/-- A failure itself changes nothing about the queue. -/
theorem Waits.failed (h : Waits event earlier later) {e : ActionError} :
    Waits event earlier (.failed e :: later) := by
  obtain ⟨ahead, behind, hwaiting, hlength⟩ := h.queued
  exact ⟨⟨ahead, behind, hwaiting, hlength⟩⟩

theorem Waits.ne_nil (h : Waits event earlier later) :
    waiting (later ++ .raised event :: earlier) ≠ [] := by
  obtain ⟨ahead, behind, hwaiting, -⟩ := h.queued
  simp [hwaiting]

/-- When an event is taken it is the one that waits, or that goes on waiting. -/
theorem Waits.handled (h : Waits event earlier later) (selected : List Nat)
    (hnext : (waiting (later ++ .raised event :: earlier)).head? = some next) :
    (event = next ∧ Takes event selected earlier (.handled next selected :: later)) ∨
      Waits event earlier (.handled next selected :: later) := by
  obtain ⟨ahead, behind, hwaiting, hlength⟩ := h.queued
  cases ahead with
  | nil =>
      rw [hwaiting] at hnext
      obtain rfl : event = next := by simpa using hnext
      exact .inl ⟨rfl, ⟨⟨later, [], rfl, by rw [hwaiting]; rfl, by simpa using hlength⟩⟩⟩
  | cons first ahead =>
      refine .inr ⟨⟨ahead, behind, ?_, ?_⟩⟩
      · rw [List.cons_append, waiting, hwaiting]
        rfl
      · rw [takings, ← hlength, List.length_cons]
        omega

/-- What was taken was taken, whatever follows. -/
theorem Takes.cons (h : Takes event selected earlier later) (k : Mark) :
    Takes event selected earlier (k :: later) := by
  obtain ⟨before, after, rfl, hhead, hcount⟩ := h.taken
  exact ⟨⟨before, k :: after, rfl, hhead, hcount⟩⟩

/-! ## Failures -/

/-- The event of a failure is an error, whatever it tells. -/
theorem isError_errorExecution (data : Json) : (Event.errorExecution data).isError = true := by
  simp [Event.isError, Event.errorExecution, Event.internal]

/-- A transition was selected for the event of a failure, or the event still waits. -/
def Heard (event : Event) (earlier later : List Mark) : Prop :=
  Waits event earlier later ∨ ∃ selected, selected ≠ [] ∧ Takes event selected earlier later

/-- Every failure that a journal tells of has raised its event, which is attended to. -/
def AllHeard (journal : List Mark) : Prop :=
  ∀ later e earlier, journal = later ++ .failed e :: earlier →
    ∃ since, later = since ++ [.raised (.errorExecution e.toJson)] ∧
      Heard (.errorExecution e.toJson) (.failed e :: earlier) since

namespace Work

/-- Queue and journal agree, and all failures are attended to. -/
structure Accounts (w : Work) : Prop where
  queue : waiting w.journal = w.internal
  attended : AllHeard w.journal
  status : w.snapshot.status ≠ .stopped

end Work

theorem Heard.mark (h : Heard event earlier later)
    (hk : Waits event earlier later → Heard event earlier (k :: later)) :
    Heard event earlier (k :: later) :=
  h.elim hk fun ⟨selected, hne, htakes⟩ => .inr ⟨selected, hne, htakes.cons k⟩

/-- One more mark that is no failure leaves the failures before it attended to. -/
theorem AllHeard.mark {journal : List Mark} (h : AllHeard journal)
    (hfailed : ∀ e, k ≠ .failed e)
    (hk : ∀ (e : ActionError) earlier later,
      journal = later ++ .raised (.errorExecution e.toJson) :: earlier →
        Waits (.errorExecution e.toJson) earlier later →
          Heard (.errorExecution e.toJson) earlier (k :: later)) :
    AllHeard (k :: journal) := by
  intro later e earlier hjournal
  cases later with
  | nil =>
      obtain ⟨rfl, -⟩ := List.cons.inj hjournal
      exact absurd rfl (hfailed e)
  | cons k' later =>
      obtain ⟨rfl, hrest⟩ := List.cons.inj hjournal
      obtain ⟨since, rfl, hattended⟩ := h later e earlier hrest
      refine ⟨k :: since, rfl, hattended.mark (hk _ _ _ ?_)⟩
      simpa using hrest

theorem AllHeard.plain {journal : List Mark} (h : AllHeard journal) (hk : k.Plain) :
    AllHeard (k :: journal) :=
  h.mark (by rintro e rfl; cases hk) fun _ _ _ _ hwaits => .inl (hwaits.plain hk)

theorem AllHeard.raised {journal : List Mark} (h : AllHeard journal) (event : Event) :
    AllHeard (.raised event :: journal) :=
  h.mark (by simp) fun _ _ _ _ hwaits => .inl (hwaits.behind event)

/-- A failure that raises its error is attended to. -/
theorem AllHeard.failed {journal : List Mark} (h : AllHeard journal) (e : ActionError) :
    AllHeard (.raised (.errorExecution e.toJson) :: .failed e :: journal) := by
  intro later e' earlier hjournal
  match later with
  | [] => cases hjournal
  | [k] =>
      cases hjournal
      exact ⟨[], rfl, .inl (.raised _ _)⟩
  | k :: k' :: later =>
      obtain ⟨rfl, hcons⟩ := List.cons.inj hjournal
      obtain ⟨rfl, hrest⟩ := List.cons.inj hcons
      obtain ⟨since, rfl, hattended⟩ := h later e' earlier hrest
      exact ⟨.raised _ :: .failed e :: since, rfl,
        (hattended.mark fun hwaits => .inl hwaits.failed).mark fun hwaits => .inl (hwaits.behind _)⟩

/-- An event is taken. If it is an error, something is selected for it. -/
theorem AllHeard.handled {journal : List Mark} (h : AllHeard journal)
    (hnext : waiting journal = [] ∨ (waiting journal).head? = some next)
    (hselected : selected ≠ [] ∨ next.isError = false) :
    AllHeard (.handled next selected :: journal) := by
  refine h.mark (by simp) fun e earlier later hjournal hwaits => ?_
  rw [hjournal] at hnext
  rcases hwaits.handled selected (hnext.resolve_left hwaits.ne_nil) with ⟨rfl, htakes⟩ | hwaits
  · exact .inr ⟨selected, hselected.resolve_right (by simp [isError_errorExecution]), htakes⟩
  · exact .inl hwaits

namespace Machine

open StepM

variable {m : Machine} {w w' : Work} {last : Event}

/-! ## Macrosteps -/

theorem Records.accounts (h : Records w w') (hw : w.Accounts) : w'.Accounts := by
  have hstatus : w'.snapshot.status ≠ .stopped := by
    rcases h.status with hs | hs
    · exact hs ▸ hw.status
    · simp [hs]
  rcases h.queues with hqueues | ⟨hqueue, k, hk, hjournal⟩
  · cases hqueues with
    | still hqueue hjournal =>
        exact ⟨by rw [hjournal, hqueue, hw.queue], hjournal ▸ hw.attended, hstatus⟩
    | raised event hqueue hjournal =>
        exact ⟨by rw [hjournal, hqueue, waiting, hw.queue], hjournal ▸ hw.attended.raised event,
          hstatus⟩
    | failed e hqueue hjournal =>
        refine ⟨?_, hjournal ▸ hw.attended.failed e, hstatus⟩
        rw [hjournal, hqueue, ← hw.queue]
        rfl
  · exact ⟨by rw [hjournal, hk.waiting, hqueue, hw.queue], hjournal ▸ hw.attended.plain hk,
      hstatus⟩

theorem accounts_ok {α : Type} {x : StepM α} (hx : Runs Records x) (hw : w.Accounts) {a : α}
    (h : x w = .ok a w') : w'.Accounts := by
  have hafter := (hx.runsFrom (p := Work.Accounts) (fun _ _ h hw => h.accounts hw) w hw).2
  rwa [after_of_ok h] at hafter

/-- To take an event, the next one or one when none waits, fails the machine or leaves all failures
attended to. -/
theorem accounts_handle (hstatus : w.snapshot.status ≠ .stopped)
    (hqueue : (waiting w.journal).tail = w.internal) (hattended : AllHeard w.journal)
    (hnext : waiting w.journal = [] ∨ (waiting w.journal).head? = some event)
    (h : m.handle event w = .ok () w') : w'.snapshot.status = .error ∨ w'.Accounts := by
  obtain ⟨selected, -, ⟨-, -, rfl⟩ | ⟨-, herror, rfl⟩ | ⟨hne, hstep⟩⟩ := handle_ok h
  · exact .inl rfl
  · exact .inr ⟨hqueue, hattended.handled hnext (.inr herror), hstatus⟩
  · exact .inr (accounts_ok records_microstep
      (w := { w with journal := .handled event selected :: w.journal })
      ⟨hqueue, hattended.handled hnext (.inl hne), hstatus⟩ hstep)

/-- A machine that is no longer active is left as it is. -/
theorem settle_inactive {fuel : Nat} {pending : Option Event}
    (hstatus : w.snapshot.status ≠ .active) (h : m.settle fuel pending last w = .ok () w') :
    w' = w := by
  cases fuel with
  | zero =>
      obtain ⟨_, _, -, h⟩ := bind_eq_ok h
      cases h
  | succ fuel =>
      obtain ⟨_, _, hget, h⟩ := bind_eq_ok h
      cases hget
      rw [if_pos hstatus] at h
      cases h
      rfl

/-- A macrostep fails the machine or leaves all failures attended to; if the machine is active then,
nothing waits. -/
theorem accounts_settle {fuel : Nat} {pending : Option Event} (hw : w.Accounts)
    (h : m.settle fuel pending last w = .ok () w') :
    w'.snapshot.status = .error ∨
      w'.Accounts ∧ (w'.snapshot.status = .active → w'.internal = []) := by
  -- by rounds: each takes the first event that waits, and answers it or fails the machine
  induction fuel generalizing pending last w with
  | zero =>
      obtain ⟨_, _, -, h⟩ := bind_eq_ok h
      cases h
  | succ fuel ih =>
      -- what was taken has failed the machine, or the next round begins
      have hgoes : ∀ {pending : Option Event} {last : Event} {w₁ : Work},
          w₁.snapshot.status = .error ∨ w₁.Accounts → m.settle fuel pending last w₁ = .ok () w' →
            w'.snapshot.status = .error ∨
              w'.Accounts ∧ (w'.snapshot.status = .active → w'.internal = []) := by
        rintro pending last w₁ (herror | hw₁) h
        · rw [settle_inactive (by simp [herror]) h]
          exact .inl herror
        · exact ih hw₁ h
      rcases settle_ok h with ⟨rfl, hend⟩ | ⟨ts, w₁, -, hstep, h⟩ |
        ⟨next, rest, w₁, hinternal, hhandle, h⟩ |
        ⟨external, w₁, w₂, -, hrests, hrelease, hhandle, h⟩
      · refine .inr ⟨hw, fun hactive => ?_⟩
        exact (hend.resolve_left (not_not.mpr hactive)).2.internal
      · refine hgoes (.inr ?_) h
        exact accounts_ok records_microstep
          (w := { w with journal := .eventless last ts :: w.journal })
          ⟨hw.queue, hw.attended.plain trivial, hw.status⟩ hstep
      · have hwaiting : waiting w.journal = next :: rest := hw.queue.trans hinternal
        refine hgoes (accounts_handle (w := { w with internal := rest }) hw.status ?_ hw.attended
          (.inr ?_) hhandle) h
        · rw [hwaiting]
          rfl
        · rw [hwaiting]
          rfl
      · obtain ⟨children, rfl⟩ := releaseCompleted_ok hrelease
        have hnone : waiting w.journal = [] := hw.queue.trans hrests.internal
        exact hgoes (accounts_handle (w := { w with snapshot := { w.snapshot with children } })
          hw.status (by rw [hnone, hrests.internal]; rfl) hw.attended (.inl hnone) hhandle) h

variable (m) in
/-- A macrostep that goes through, by its journal, latest first, and the snapshot it returns. -/
inductive Macrostep : List Mark → MachineSnapshot → Prop
  | initial {scope scope' : Scope} {input : Json} {w : Work} {s : MachineSnapshot}
      (hrun : m.initialRun scope input = .ok () w)
      (hreturns : m.initialState scope input = (scope', .ok s)) : Macrostep w.journal s
  | event {scope scope' : Scope} {s next : MachineSnapshot} {event : Event} {w : Work}
      (hactive : s.status = .active) (hrun : m.transitionRun scope s event = .ok () w)
      (hreturns : m.transition scope s event = (scope', .ok next)) : Macrostep w.journal next

/-- A macrostep fails the machine or leaves all failures attended to; if the machine is active then,
nothing waits. -/
theorem Macrostep.accounts {journal : List Mark} {s : MachineSnapshot}
    (h : m.Macrostep journal s) : s.status = .error ∨
      ∃ w : Work, w.journal = journal ∧ w.snapshot.status = s.status ∧ w.Accounts ∧
        (s.status = .active → w.internal = []) := by
  have hbegin : ∀ scope (s : MachineSnapshot), s.status = .active → (begin scope s).Accounts := by
    intro scope s hactive
    exact ⟨rfl, fun later _ _ hnil => by simp [begin] at hnil, by simp [begin, hactive]⟩
  cases h with
  | @initial scope _ input w _ hrun hreturns =>
      obtain ⟨w', hrun', rfl⟩ := outcome_ok hreturns
      rw [hrun] at hrun'
      cases hrun'
      obtain ⟨_, w₁, henter, hsettle⟩ := bind_eq_ok hrun
      have hw₁ := accounts_ok records_enter (hbegin _ (.start _ _) rfl) henter
      exact (accounts_settle hw₁ hsettle).imp_right fun ⟨hw, hnone⟩ => ⟨w, rfl, rfl, hw, hnone⟩
  | @event scope _ s _ event w hactive hrun hreturns =>
      rw [transition, if_pos hactive] at hreturns
      obtain ⟨w', hrun', rfl⟩ := outcome_ok hreturns
      rw [hrun] at hrun'
      cases hrun'
      exact (accounts_settle (hbegin _ s hactive) hrun).imp_right
        fun ⟨hw, hnone⟩ => ⟨w, rfl, rfl, hw, hnone⟩

/-- The state of a step after an assignment has failed: the action is recorded and its error
raised. -/
def failing (w : Work) (params : Json) (e : ActionError) : Work :=
  { w with
    snapshot := { w.snapshot with
      actions := w.snapshot.actions ++ [{ kind := "assign", params }] }
    internal := w.internal ++ [.errorExecution e.toJson]
    journal := .raised (.errorExecution e.toJson) :: .failed e :: w.journal }

/-- After a failing assignment the actions that follow it are carried out. -/
theorem performAll_failing {fuel : Nat} {assignment : Assignment} {params : Json}
    {rest : List Task} {e : ActionError}
    (h : assignment.apply ⟨w.snapshot.context, last, params, w.scope.system.held?⟩ = .error e) :
    m.performAll last (fuel + 1) ({ action := .assign assignment, params } :: rest) w =
      m.performAll last fuel rest (failing w params e) := by
  have hassign : assign assignment last params w = .ok () { w with
      internal := w.internal ++ [.errorExecution e.toJson]
      journal := .raised (.errorExecution e.toJson) :: .failed e :: w.journal } := by
    have hargs : args last params w =
        .ok ⟨w.snapshot.context, last, params, w.scope.system.held?⟩ w := rfl
    unfold assign
    simp only [Bind.bind, EStateM.bind, hargs, h]
    rfl
  have hperform : m.perform last { action := .assign assignment, params } w =
      .ok [] (failing w params e) := by
    show EStateM.bind (assign assignment last params) _ w = _
    rw [EStateM.bind, hassign]
    rfl
  show EStateM.bind (m.perform last _) _ w = _
  rw [EStateM.bind, hperform]
  rfl

/-- In a macrostep that goes through, a failing assignment fails the machine, or a transition is
selected for the error that it has raised, or the machine is done while the error still waits. The
context stays as it was before the assignment, and the actions after it are carried out. -/
theorem failures_answered :
    (∀ {journal : List Mark} {s : MachineSnapshot}, m.Macrostep journal s →
      ∀ later e earlier, journal = later ++ .failed e :: earlier →
        s.status = .error ∨ ∃ since, later = since ++ [.raised (.errorExecution e.toJson)] ∧
          ((∃ selected, selected ≠ [] ∧
              Takes (.errorExecution e.toJson) selected (.failed e :: earlier) since) ∨
            s.status = .done ∧ Waits (.errorExecution e.toJson) (.failed e :: earlier) since)) ∧
    ∀ (w : Work) (event : Event) (fuel : Nat) (assignment : Assignment) (params : Json)
      (rest : List Task) (e : ActionError),
      assignment.apply ⟨w.snapshot.context, event, params, w.scope.system.held?⟩ = .error e →
        m.performAll event (fuel + 1) ({ action := .assign assignment, params } :: rest) w =
            m.performAll event fuel rest (failing w params e) ∧
          (failing w params e).snapshot.context = w.snapshot.context := by
  refine ⟨fun {journal s} h later e earlier hjournal => ?_,
    fun w event fuel assignment params rest e hfails => ⟨performAll_failing hfails, rfl⟩⟩
  rcases h.accounts with herror | ⟨w, rfl, hstatus, hw, hnone⟩
  · exact .inl herror
  · obtain ⟨since, rfl, hwaits | htaken⟩ := hw.attended later e earlier hjournal
    · have hwaiting : w.internal ≠ [] := by
        rw [← hw.queue, hjournal, List.append_assoc]
        exact hwaits.ne_nil
      cases hs : s.status with
      | active => exact absurd (hnone hs) hwaiting
      | done => exact .inr ⟨since, rfl, .inr ⟨rfl, hwaits⟩⟩
      | error => exact .inl rfl
      | stopped => exact absurd (hstatus.trans hs) hw.status
    · exact .inr ⟨since, rfl, .inl htaken⟩

/-! ## A failure that nobody hears of -/

/-- An action that fails. -/
def breakdown : ActionError := { message := "broken" }

/-- A machine that breaks down on its way, and has a transition for that. -/
def brittleConfig : MachineConfig where
  root := .node { id := some "brittle", initial := some "whole" }
    (some [
      ("whole", .node {
        on := some [("GO", some [{ actions := [.named "break"] }]),
          ("FINISH", some [{ target := ["over"], actions := [.named "break"] }]),
          ("error.execution", some [.toTarget "broken"])] } none),
      ("broken", .node {} none),
      ("over", .node { kind := some .final } none)])

def brittle : Machine where
  definition := (Definition.build brittleConfig).toOption.getD default
  implementations := { (default : Implementations Logic) with
    actions := fun _ => some (.assign (.reducer fun _ => .error breakdown)) }
  spawn := default

/-- A mark is not of the taking of an error. -/
def noError : Mark → Bool
  | .handled event _ => !event.isError
  | _ => true

theorem not_takes_of_noError {journal later earlier : List Mark} {event : Event}
    {selected : List Nat} (hall : journal.all noError = true) (hlater : later ⊆ journal)
    (herror : event.isError = true) : ¬Takes event selected earlier later := by
  intro h
  obtain ⟨before, after, rfl, -⟩ := h.taken
  have hmark := List.all_eq_true.mp hall (.handled event selected) (hlater (by simp))
  simp [noError, herror] at hmark

set_option maxRecDepth 100000 in
/-- A machine that goes on after a failure has taken the transition for it. -/
theorem brittle_breaks : ∃ journal s later earlier, brittle.Macrostep journal s ∧
    journal = later ++ .failed breakdown :: earlier ∧ s.status = .active ∧
    ∃ since selected, later = since ++ [.raised (.errorExecution breakdown.toJson)] ∧
      selected ≠ [] ∧
        Takes (.errorExecution breakdown.toJson) selected (.failed breakdown :: earlier) since := by
  obtain ⟨scope, s, -, hactive, w, hrun, scope', next, hreturns, hnext, hfailed⟩ : ∃ scope s,
      brittle.initialState default .null = (scope, .ok s) ∧ s.status = .active ∧
      ∃ w, brittle.transitionRun default s (.named "GO") = .ok () w ∧
      ∃ scope' next, brittle.transition default s (.named "GO") = (scope', .ok next) ∧
        next.status = .active ∧ w.journal[7]? = some (.failed breakdown) :=
    ⟨_, _, rfl, rfl, _, rfl, _, _, rfl, rfl, rfl⟩
  obtain ⟨later, earlier, hjournal⟩ := List.append_of_mem (List.mem_of_getElem? hfailed)
  have hstep : brittle.Macrostep w.journal next := .event hactive hrun hreturns
  rcases failures_answered.1 hstep later breakdown earlier hjournal with
    herror | ⟨since, hlater, ⟨selected, hne, htakes⟩ | ⟨hdone, -⟩⟩
  · rw [hnext] at herror
    cases herror
  · exact ⟨w.journal, next, later, earlier, hstep, hjournal, hnext, since, selected, hlater, hne,
      htakes⟩
  · rw [hnext] at hdone
    cases hdone

set_option maxRecDepth 100000 in
/-- A failure can go unheard: an action that fails on the way to the end of its machine neither
fails the machine nor is a transition selected for its error. -/
theorem failure_lost : ¬∀ (m : Machine) (journal : List Mark) (s : MachineSnapshot),
    m.Macrostep journal s → ∀ later e earlier, journal = later ++ .failed e :: earlier →
      s.status = .error ∨ ∃ since selected,
        later = since ++ [.raised (.errorExecution e.toJson)] ∧ selected ≠ [] ∧
          Takes (.errorExecution e.toJson) selected (.failed e :: earlier) since := by
  intro hall
  obtain ⟨scope, s, -, hactive, w, hrun, scope', next, hreturns, hdone, hfailed, hnone⟩ :
      ∃ scope s, brittle.initialState default .null = (scope, .ok s) ∧ s.status = .active ∧
      ∃ w, brittle.transitionRun default s (.named "FINISH") = .ok () w ∧
      ∃ scope' next, brittle.transition default s (.named "FINISH") = (scope', .ok next) ∧
        next.status = .done ∧ w.journal[5]? = some (.failed breakdown) ∧
          w.journal.all noError = true :=
    ⟨_, _, rfl, rfl, _, rfl, _, _, rfl, rfl, rfl, rfl⟩
  obtain ⟨later, earlier, hjournal⟩ := List.append_of_mem (List.mem_of_getElem? hfailed)
  rcases hall brittle w.journal next (.event hactive hrun hreturns) later breakdown earlier
    hjournal with herror | ⟨since, selected, rfl, -, htakes⟩
  · rw [hdone] at herror
    cases herror
  · refine not_takes_of_noError hnone ?_ (isError_errorExecution _) htakes
    rw [hjournal, List.append_assoc]
    exact List.subset_append_left _ _

end Machine

end Statechart
