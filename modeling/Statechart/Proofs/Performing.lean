import Statechart.Proofs.Frame

/-!
# What actions ask for

`Machine.Performs` says what a single action does to the queue, the journal, the snapshot and the
effects of a step when all that it asks for is of one kind, and `Machine.Confines` when a kind of
actions, with all that stands in for them, asks for nothing else. `performs_execute` says that lists
of such actions do no more, and `records_microstep` what whole microsteps do to queue and journal.
-/

namespace Statechart

/-- The mark is neither about an event on the queue nor about a failure. -/
def Mark.Plain : Mark → Prop
  | .handled _ _ => False
  | .raised _ => False
  | .failed _ => False
  | _ => True

/-- What a snapshot holds besides its place in the chart. -/
def MachineSnapshot.holdings (s : MachineSnapshot) : Json × List (String × Session) × Option Json :=
  (s.context, s.children, s.error)

namespace Work

/-- Queue and journal stay, or an event is raised, or an assignment fails and raises an error. -/
inductive Queues (w w' : Work) : Prop
  | still (hqueue : w'.internal = w.internal) (hjournal : w'.journal = w.journal)
  | raised (event : Event) (hqueue : w'.internal = w.internal ++ [event])
      (hjournal : w'.journal = .raised event :: w.journal)
  | failed (e : ActionError) (hqueue : w'.internal = w.internal ++ [.errorExecution e.toJson])
      (hjournal : w'.journal = .raised (.errorExecution e.toJson) :: .failed e :: w.journal)

/-- No effect is asked for, or one of a kind. -/
def Asks (kind : Effect → Prop) (w w' : Work) : Prop :=
  w'.scope.effects = w.scope.effects ∨
    ∃ e, kind e ∧ w'.scope.effects = w.scope.effects ++ [e]

/-- What changes in what the snapshot holds comes with the record of an action. -/
inductive Discloses (w w' : Work) : Prop
  | aside (hactions : w'.snapshot.actions = w.snapshot.actions)
      (hholdings : w'.snapshot.holdings = w.snapshot.holdings)
  | told (a : ExecutedAction) (hactions : w'.snapshot.actions = w.snapshot.actions ++ [a])

end Work

namespace Machine

open StepM

/-- What a single action does when its effects are of a kind. -/
structure Performs (kind : Effect → Prop) (w w' : Work) : Prop where
  status : w'.snapshot.status = w.snapshot.status
  config : w'.snapshot.config = w.snapshot.config
  session : w'.scope.session = w.scope.session
  queues : w.Queues w'
  asks : w.Asks kind w'
  discloses : w.Discloses w'

/-- Effects that concern neither sends nor timers. -/
def Aside : Effect → Prop
  | .send _ _ _ _ => False
  | .cancel _ => False
  | _ => True

/-- A kind of actions, with all that stands in for them, asks only for effects of a kind. -/
structure Confines (m : Machine) (allowed : Action Logic → Prop) (kind : Effect → Prop) :
    Prop where
  aside : ∀ e, Aside e → kind e
  named {name : String} {params : Json} {found : Action Logic} (h : allowed (.named name params))
    (hfound : m.implementations.actions name = some found) : allowed found
  raise {expr : EventExpr} {delay : Delay} {id : Option String}
    (h : allowed (.raise expr (some delay) id)) :
      ∀ target event ms, (∀ n, delay = .ms n → ms = n) → kind (.send target event (some ms) id)
  sendTo {target : SendTarget} {expr : EventExpr} {delay : Option Delay} {id : Option String}
    (h : allowed (.sendTo target expr delay id)) :
      ∀ recipient event ms, ms.isSome = delay.isSome → kind (.send recipient event ms id)
  cancel {id : String} (h : allowed (.cancel id)) : kind (.cancel id)
  choose {branches : List (Branch (Action Logic))} (h : allowed (.choose branches)) :
    ∀ branch ∈ branches, ∀ action ∈ branch.actions, allowed action
  enqueue {f : ActionArgs → List (Action Logic)} (h : allowed (.enqueue f)) :
    ∀ args, ∀ action ∈ f args, allowed action

/-- Nothing is asked of actions whose effects may be anything. -/
theorem confines_all (m : Machine) : m.Confines (fun _ => True) fun _ => True := by
  constructor <;> intros <;> trivial

variable {m : Machine} {kind : Effect → Prop} {allowed : Action Logic → Prop}

/-! ## Single actions -/

theorem performs_recordAction {name : String} {params : Json} :
    Runs (Performs kind) (recordAction name params) :=
  .modify fun _ => ⟨rfl, rfl, rfl, .still rfl rfl, .inl rfl, .told _ rfl⟩

theorem performs_pushEffect {effect : Effect} (h : kind effect) :
    Runs (Performs kind) (pushEffect effect) :=
  .modify fun _ => ⟨rfl, rfl, rfl, .still rfl rfl, .inr ⟨effect, h, rfl⟩, .aside rfl rfl⟩

theorem performs_raise {event : Event} : Runs (Performs kind) (raise event) :=
  .modify fun _ => ⟨rfl, rfl, rfl, .raised event rfl rfl, .inl rfl, .aside rfl rfl⟩

theorem performs_missing {what name : String} : Runs (Performs kind) (missing what name) := by
  intro w
  show Relation.ReflTransGen _ w (if w.scope.system.config.devMode then _ else w)
  split
  · exact .single ⟨rfl, rfl, rfl, .still rfl rfl, .inl rfl, .aside rfl rfl⟩
  · exact .refl

theorem performs_delayMs? {event : Event} {params : Json} {delay : Delay} :
    Runs (Performs kind) (m.delayMs? event params delay) := by
  cases delay with
  | ms n => exact .pure _
  | named name =>
      unfold delayMs?
      simp only
      split
      · exact .bind .args fun _ => .pure _
      · exact .bind performs_missing fun _ => .pure _

theorem performs_unreachable {e : ActorError} : Runs (Performs kind) (unreachable e) := by
  refine .get_bind fun w => ?_
  by_cases h : w.scope.parent.isNone = true
  · simp only [h, if_true]
    exact (Runs.bind (.throw e) fun _ => .bind (.pure _) fun _ => performs_raise) w
  · simp only [h]
    exact (Runs.bind (.pure _) fun _ => performs_raise) w

/-- An assignment is recorded whether it fails or not. -/
theorem performs_assign {assignment : Assignment} {event : Event} {params : Json} :
    Runs (Performs kind) (do
      assign assignment event params
      recordAction "assign" params
      return ([] : List Task)) := by
  intro w
  cases happly : assignment.apply
      { context := w.snapshot.context, event, params, held := w.scope.system.held? } with
  | ok context =>
      have hassign : assign assignment event params w =
          .ok () { w with snapshot := { w.snapshot with context } } := by
        rw [assign, bind_of_ok (x := args event params) rfl, happly]
        rfl
      rw [after_congr (bind_of_ok hassign)]
      exact .single ⟨rfl, rfl, rfl, .still rfl rfl, .inl rfl, .told _ rfl⟩
  | error e =>
      have hassign : assign assignment event params w = .ok () { w with
          internal := w.internal ++ [.errorExecution e.toJson]
          journal := .raised (.errorExecution e.toJson) :: .failed e :: w.journal } := by
        rw [assign, bind_of_ok (x := args event params) rfl, happly]
        rfl
      rw [after_congr (bind_of_ok hassign)]
      exact .single ⟨rfl, rfl, rfl, .failed e rfl rfl, .inl rfl, .told _ rfl⟩

theorem performs_raiseSelf {expr : EventExpr} {delay : Option Delay} {id : Option String}
    {event : Event} {params : Json} (hc : m.Confines allowed kind)
    (h : allowed (.raise expr delay id)) :
    Runs (Performs kind) (m.raiseSelf expr delay id event params) := by
  refine .bind .args fun a => ?_
  cases delay with
  | none => exact .bind performs_raise fun _ => performs_recordAction
  | some delay =>
      have hpush : ∀ ms, (∀ n, delay = .ms n → ms = n) → ∀ event name, Runs (Performs kind) (do
          let w ← get
          pushEffect (.send (.session w.scope.session) event (some ms) id)
          recordAction "raise" (.obj [("event", .str name)])) :=
        fun ms hms event name => .get_bind fun w => (Runs.bind
          (performs_pushEffect (hc.raise h _ _ _ hms)) fun _ => performs_recordAction) w
      cases delay with
      | ms n => exact hpush n (fun _ heq => Delay.ms.inj heq) _ _
      | named name =>
          refine .bind performs_delayMs? fun ms => ?_
          cases ms with
          | none => exact .pure _
          | some ms => exact hpush ms (fun _ heq => by cases heq) _ _

theorem performs_sendTo {target : SendTarget} {expr : EventExpr} {delay : Option Delay}
    {id : Option String} {event : Event} {params : Json} (hc : m.Confines allowed kind)
    (h : allowed (.sendTo target expr delay id)) :
    Runs (Performs kind) (m.sendTo target expr delay id event params) := by
  refine .get_bind fun w => ?_
  refine (Runs.bind .args fun a => ?_) w
  simp only
  cases destination w target with
  | error e => exact performs_unreachable
  | ok recipient =>
      have hsend : ∀ (target name : String) (event : Event) (ms : Option Nat),
          ms.isSome = delay.isSome → Runs (Performs kind) (do
            recordAction "sendTo" (.obj [("to", .str target), ("event", .str name)])
            pushEffect (.send recipient event ms id)) :=
        fun _ _ _ _ hms => .bind performs_recordAction fun _ =>
          performs_pushEffect (hc.sendTo h _ _ _ hms)
      cases delay with
      | none => exact hsend _ _ _ _ rfl
      | some delay =>
          refine .bind performs_delayMs? fun ms => ?_
          cases ms with
          | none => exact .pure _
          | some ms => exact hsend _ _ _ _ rfl

theorem performs_log {label : Option String} {value : Option ValueExpr} {event : Event}
    {params : Json} (hc : m.Confines allowed kind) :
    Runs (Performs kind) (log label value event params) :=
  .bind .args fun _ => .bind (performs_pushEffect (hc.aside _ trivial)) fun _ =>
    performs_recordAction

theorem performs_spawnChild {logic : Logic} {key id systemId : Option String}
    {input : ValueExpr} {event : Event} {params : Json} (hc : m.Confines allowed kind) :
    Runs (Performs kind) (m.spawnChild logic key id systemId input event params) := by
  refine .bind .args fun a => .get_bind fun w => ?_
  simp only
  split
  · exact .single ⟨rfl, rfl, rfl, .still rfl rfl, .inr ⟨_, hc.aside (.start _) trivial, rfl⟩,
      .told _ rfl⟩
  · exact .single ⟨rfl, rfl, rfl, .raised _ rfl rfl, .inl rfl, .aside rfl rfl⟩

theorem performs_spawn? {source : LogicSource Logic} {id systemId : Option String}
    {input : ValueExpr} {event : Event} {params : Json} (hc : m.Confines allowed kind) :
    Runs (Performs kind) (m.spawn? source id systemId input event params) := by
  cases source with
  | inline logic => exact performs_spawnChild hc
  | key key =>
      unfold spawn?
      simp only
      split
      · exact performs_spawnChild hc
      · exact performs_missing

theorem performs_stopChild {id : String} (hc : m.Confines allowed kind) :
    Runs (Performs kind) (stopChild id) := by
  refine .get_bind fun w => ?_
  cases SortedMap.find? id w.snapshot.children with
  | none => exact (Runs.bind (.pure _) fun _ => performs_recordAction) w
  | some child =>
      exact .single ⟨rfl, rfl, rfl, .still rfl rfl, .inr ⟨_, hc.aside (.stop child) trivial, rfl⟩,
        .told _ rfl⟩

theorem performs_pushExec {name : String} {run : ActionArgs → Script (Except ActionError Unit)}
    {event : Event} {params : Json} (hc : m.Confines allowed kind) :
    Runs (Performs kind) (pushExec name run event params) :=
  .bind .args fun _ => .bind (performs_pushEffect (hc.aside _ trivial)) fun _ =>
    performs_recordAction

theorem performs_perform {event : Event} {task : Task} (hc : m.Confines allowed kind)
    (h : allowed task.action) : Runs (Performs kind) (m.perform event task) := by
  obtain ⟨action, params⟩ := task
  cases action with
  | named name own =>
      unfold perform
      simp only
      split
      · exact .bind (performs_pushExec hc) fun _ => .pure _
      · exact .pure _
      · exact .bind performs_missing fun _ => .pure _
  | assign assignment => exact performs_assign
  | raise expr delay id => exact .bind (performs_raiseSelf hc h) fun _ => .pure _
  | sendTo target expr delay id => exact .bind (performs_sendTo hc h) fun _ => .pure _
  | log label value => exact .bind (performs_log hc) fun _ => .pure _
  | spawn source id systemId input => exact .bind (performs_spawn? hc) fun _ => .pure _
  | stop id => exact .bind (performs_stopChild hc) fun _ => .pure _
  | cancel id =>
      exact .bind (performs_pushEffect (hc.cancel h)) fun _ =>
        .bind performs_recordAction fun _ => .pure _
  | choose branches =>
      refine .get_bind fun w => ?_
      cases m.chooseBranch w event branches with
      | ok actions => exact .refl
      | error e => exact .refl
  | enqueue f => exact .bind .args fun _ => .pure _
  | custom run => exact .bind (performs_pushExec hc) fun _ => .pure _

/-! ## Lists of actions -/

/-- A choice leads to one of its branches, or to nothing. -/
theorem chooseBranch_eq_ok {w : Work} {event : Event} {branches : List (Branch (Action Logic))}
    {actions : List (Action Logic)} (h : m.chooseBranch w event branches = .ok actions) :
    actions = [] ∨ ∃ branch ∈ branches, actions = branch.actions := by
  induction branches with
  | nil =>
      cases h
      exact .inl rfl
  | cons branch rest ih =>
      rw [chooseBranch] at h
      split at h
      · cases h
        exact .inr ⟨branch, List.mem_cons_self, rfl⟩
      · refine (ih h).imp_right ?_
        rintro ⟨other, hother, rfl⟩
        exact ⟨other, List.mem_cons_of_mem _ hother, rfl⟩
      · cases h

/-- What is carried out in the place of an action. -/
inductive Leaves (m : Machine) : Task → List Task → Prop
  | nothing {task : Task} : Leaves m task []
  /-- What is supplied under its name. -/
  | found {name : String} {own params params' : Json} {found : Action Logic}
      (h : m.implementations.actions name = some found) :
      Leaves m ⟨.named name own, params⟩ [⟨found, params'⟩]
  /-- One branch of a choice. -/
  | chosen {branches : List (Branch (Action Logic))} {branch : Branch (Action Logic)}
      {params : Json} (h : branch ∈ branches) :
      Leaves m ⟨.choose branches, params⟩ (branch.actions.map (⟨·, params⟩))
  /-- What a supplied function lists. -/
  | listed {f : ActionArgs → List (Action Logic)} {args : ActionArgs} {params : Json} :
      Leaves m ⟨.enqueue f, params⟩ ((f args).map (⟨·, params⟩))

theorem leaves_perform {event : Event} {task : Task} {instead : List Task} {w w' : Work}
    (hok : m.perform event task w = .ok instead w') : m.Leaves task instead := by
  -- what ends with an empty list leaves nothing to carry out
  have hnone : ∀ {x : StepM Unit}, (do x; return []) w = .ok instead w' → m.Leaves task instead := by
    intro x hx
    obtain ⟨_, _, -, hx⟩ := bind_eq_ok hx
    cases hx
    exact .nothing
  obtain ⟨action, params⟩ := task
  cases action with
  | named name own =>
      cases hfound : m.implementations.actions name with
      | none =>
          simp only [perform, hfound] at hok
          exact hnone hok
      | some found =>
          simp only [perform, hfound] at hok
          cases found with
          | custom run => exact hnone hok
          | _ =>
            cases hok
            exact .found hfound
  | assign assignment =>
      obtain ⟨_, _, -, hok⟩ := bind_eq_ok hok
      obtain ⟨_, _, -, hok⟩ := bind_eq_ok hok
      cases hok
      exact .nothing
  | raise | sendTo | log | spawn | stop | custom => exact hnone hok
  | cancel id =>
      obtain ⟨_, _, -, hok⟩ := bind_eq_ok hok
      obtain ⟨_, _, -, hok⟩ := bind_eq_ok hok
      cases hok
      exact .nothing
  | choose branches =>
      obtain ⟨_, _, hget, hok⟩ := bind_eq_ok hok
      cases hget
      cases hchoose : m.chooseBranch w event branches with
      | error e =>
          rw [hchoose] at hok
          cases hok
      | ok actions =>
          rw [hchoose] at hok
          cases hok
          rcases chooseBranch_eq_ok hchoose with rfl | ⟨branch, hbranch, rfl⟩
          · exact .nothing
          · exact .chosen hbranch
  | enqueue f =>
      obtain ⟨_, _, -, hok⟩ := bind_eq_ok hok
      cases hok
      exact .listed

/-- What stands in for an action is of its kind. -/
theorem Leaves.confined {task : Task} {instead : List Task} (h : m.Leaves task instead)
    (hc : m.Confines allowed kind) (hallowed : allowed task.action) :
    ∀ t ∈ instead, allowed t.action := by
  cases h with
  | nothing => simp
  | found hfound => simpa using hc.named hallowed hfound
  | chosen hbranch =>
      refine List.forall_mem_map.mpr fun action haction => ?_
      exact hc.choose hallowed _ hbranch action haction
  | listed => exact List.forall_mem_map.mpr fun action haction => hc.enqueue hallowed _ action haction

theorem performs_performAll {event : Event} (hc : m.Confines allowed kind) :
    ∀ {fuel : Nat} {tasks : List Task}, (∀ t ∈ tasks, allowed t.action) →
      Runs (Performs kind) (m.performAll event fuel tasks)
  | 0, [], _ => .pure _
  | _ + 1, [], _ => .pure _
  | 0, _ :: _, _ => .get_bind fun _ => .refl
  | fuel + 1, task :: rest, h => by
      intro w
      have hperform : Runs (Performs kind) (m.perform event task) :=
        performs_perform hc (h task List.mem_cons_self)
      have htask := hperform w
      show Relation.ReflTransGen _ w (after (EStateM.bind _ _) w)
      unfold after EStateM.bind
      unfold after at htask
      cases hres : m.perform event task w with
      | error e w' =>
          rw [hres] at htask
          exact htask
      | ok instead w' =>
          rw [hres] at htask
          -- What an action leaves to do instead is as confined as the action itself.
          refine htask.trans (performs_performAll hc (fun t ht => ?_) w')
          rcases List.mem_append.mp ht with ht | ht
          · exact (leaves_perform hres).confined hc (h task List.mem_cons_self) t ht
          · exact h t (List.mem_cons_of_mem _ ht)

/-- The actions of a list ask for effects of their kind only. -/
theorem performs_execute {actions : List (Action Logic)} {event : Event}
    (hc : m.Confines allowed kind) (h : ∀ action ∈ actions, allowed action) :
    Runs (Performs kind) (m.execute actions event) := by
  refine performs_performAll hc fun t ht => ?_
  obtain ⟨action, ha, rfl⟩ := List.mem_map.mp ht
  exact h action ha

/-! ## Microsteps -/

/-- What a microstep does at a time to queue and journal. At most it completes the machine. -/
structure Records (w w' : Work) : Prop where
  status : w'.snapshot.status = w.snapshot.status ∨ w'.snapshot.status = .done
  queues : w.Queues w' ∨
    w'.internal = w.internal ∧ ∃ k : Mark, k.Plain ∧ w'.journal = k :: w.journal

theorem Performs.records {w w' : Work} (h : Performs kind w w') : Records w w' :=
  ⟨.inl h.status, .inl h.queues⟩

/-- A mark that is plain is put down. -/
theorem Records.marked (w : Work) (k : Mark) (hk : k.Plain) :
    Records w { w with journal := k :: w.journal } :=
  ⟨.inl rfl, .inr ⟨rfl, k, hk, rfl⟩⟩

/-- The snapshot changes, and at most the machine is done then. -/
theorem Records.moved (w : Work) (s : MachineSnapshot)
    (h : s.status = w.snapshot.status ∨ s.status = .done) : Records w { w with snapshot := s } :=
  ⟨h, .inl (.still rfl rfl)⟩

theorem Records.raised (w : Work) (event : Event) : Records w
    { w with internal := w.internal ++ [event], journal := .raised event :: w.journal } :=
  ⟨.inl rfl, .inl (.raised event rfl rfl)⟩

theorem records_execute {actions : List (Action Logic)} {event : Event} :
    Runs Records (m.execute actions event) :=
  (performs_execute m.confines_all fun _ _ => trivial).mono fun _ _ => Performs.records

section Completing

variable {r : Work → Work → Prop}
  (hmark : ∀ w state, r w { w with journal := .completed state :: w.journal })
  (hraise : ∀ w event, r w
    { w with internal := w.internal ++ [event], journal := .raised event :: w.journal })

include hmark hraise

theorem completing_raiseDone {state : Nat} {output : Json} : Runs r (m.raiseDone state output) :=
  .bind (.modify fun w => hmark w state) fun _ => .modify fun w => hraise w _

theorem completing_completeRegions : ∀ {ancestors raised : List Nat},
    Runs r (m.completeRegions raised ancestors)
  | [], _ => .pure _
  | a :: rest, raised => by
      refine .get_bind fun w => ?_
      simp only
      split
      · exact (Runs.bind (completing_raiseDone hmark hraise) fun _ =>
          completing_completeRegions) w
      · exact completing_completeRegions w

/-- To complete what is around a final state is to mark states as complete and to raise events. -/
theorem completing_completeAround {raised : List Nat} {final : Nat} :
    Runs r (m.completeAround raised final) := by
  unfold completeAround
  simp only
  split
  · exact .pure _
  · split
    · exact .pure _
    · exact .bind (completing_raiseDone hmark hraise) fun _ =>
        completing_completeRegions hmark hraise

end Completing

section Moving

/-! A microstep carries out actions, puts down marks and changes the configuration; at most it
remembers what it leaves and completes the machine. -/

variable {r : Work → Work → Prop}
  (hexecute : ∀ {actions : List (Action Logic)} {event : Event}, Runs r (m.execute actions event))
  (hmark : ∀ w (k : Mark), k.Plain → r w { w with journal := k :: w.journal })

include hexecute hmark

theorem moving_runExits {event : Event} : ∀ {states : List Nat},
    Runs r (m.runExits event states)
  | [] => .pure _
  | _ :: _ => .bind hexecute fun _ => .bind (.modify fun w => hmark w _ trivial) fun _ =>
      moving_runExits

theorem moving_runTransitions {event : Event} : ∀ {ts : List (Transition Logic)},
    Runs r (m.runTransitions event ts)
  | [] => .pure _
  | _ :: _ => .bind hexecute fun _ => .bind (.modify fun w => hmark w _ trivial) fun _ =>
      moving_runTransitions

variable (hconfig : ∀ w config, r w { w with snapshot := { w.snapshot with config } })

include hconfig

theorem moving_exitStates {event : Event} : ∀ {states : List Nat},
    Runs r (m.exitStates event states)
  | [] => .pure _
  | _ :: _ => .bind
      (.bind hexecute fun _ => .bind (.modify fun w => hmark w _ trivial) fun _ =>
        .modify fun w => hconfig w _)
      fun _ => moving_exitStates

variable (hraise : ∀ w event, r w
  { w with internal := w.internal ++ [event], journal := .raised event :: w.journal })

include hraise

theorem moving_enterStates {event : Event} : ∀ {states raised : List Nat},
    Runs r (m.enterStates event raised states)
  | [], _ => .pure _
  | _ :: _, _ => by
      refine .bind (.modify fun w => hconfig w _) fun _ => ?_
      refine .bind hexecute fun _ => .bind (.modify fun w => hmark w _ trivial) fun _ => ?_
      simp only
      split
      · exact .bind (completing_completeAround (fun w state => hmark w _ trivial) hraise)
          fun _ => moving_enterStates
      · exact .bind (.pure _) fun _ => moving_enterStates

variable (hdone : ∀ w output,
  r w { w with snapshot := { w.snapshot with status := .done, output } })

include hdone

theorem moving_enter {event : Event} {entering : List Nat} :
    Runs r (m.enter event entering) := by
  refine .bind (moving_enterStates hexecute hmark hconfig hraise) fun _ => .get_bind fun w => ?_
  simp only
  split
  · refine (Runs.bind (.modify fun w => hdone w _) fun _ => .get_bind fun w => ?_) w
    exact moving_runExits hexecute hmark w
  · exact .refl

variable (hhistory : ∀ w history, r w { w with snapshot := { w.snapshot with history } })

include hhistory

theorem moving_microstep {ts : List Nat} {event : Event} : Runs r (m.microstep ts event) := by
  unfold microstep
  simp only
  split
  · exact .pure _
  · refine .bind (.modify fun w => hmark w _ trivial) fun _ => .get_bind fun w => ?_
    refine (Runs.bind (.modify fun w => hhistory w _) fun _ => ?_) w
    refine .bind (moving_exitStates hexecute hmark hconfig) fun _ =>
      .bind (moving_runTransitions hexecute hmark) fun _ => ?_
    exact .get_bind fun w => moving_enter hexecute hmark hconfig hraise hdone w

end Moving

theorem records_runExits {event : Event} {states : List Nat} :
    Runs Records (m.runExits event states) := moving_runExits records_execute .marked

theorem records_enter {event : Event} {entering : List Nat} :
    Runs Records (m.enter event entering) :=
  moving_enter records_execute .marked (fun w _ => .moved w _ (.inl rfl)) .raised
    fun w _ => .moved w _ (.inr rfl)

/-- A microstep takes no event from the queue, and what fails in it raises an error at once. -/
theorem records_microstep {ts : List Nat} {event : Event} :
    Runs Records (m.microstep ts event) :=
  moving_microstep records_execute .marked (fun w _ => .moved w _ (.inl rfl)) .raised
    (fun w _ => .moved w _ (.inr rfl)) fun w _ => .moved w _ (.inl rfl)

end Machine

end Statechart
