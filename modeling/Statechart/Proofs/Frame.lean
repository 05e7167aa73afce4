import Mathlib.Logic.Relation
import Statechart.Step.Macrostep

/-!
# What a step can do

`Machine.Acts` lists the single changes that actions make to the state of a step, and
`Machine.Proceeds` those that a whole macrostep or a stop makes. `runs_execute` and `runs_macrostep`
say that there are no others: whatever a list of actions or a macrostep does, also one that is
abandoned, is a sequence of such changes. What each of them keeps is therefore kept by all steps.
-/

namespace Statechart

open Relation (ReflTransGen)

namespace StepM

/-- The state that a part of a step ends in, whether it is abandoned or not. -/
def after {α : Type} (x : StepM α) (w : Work) : Work :=
  match x w with
  | .ok _ w' => w'
  | .error _ w' => w'

/-- A part of a step makes changes of one kind only. -/
def Runs {α : Type} (r : Work → Work → Prop) (x : StepM α) : Prop :=
  ∀ w, ReflTransGen r w (x.after w)

variable {α β : Type} {r : Work → Work → Prop}

theorem Runs.pure (a : α) : Runs r (Pure.pure a : StepM α) := fun _ => .refl

theorem Runs.throw (e : ActorError) : Runs r (MonadExcept.throw e : StepM α) := fun _ => .refl

theorem reflTransGen_bind {x : StepM α} {f : α → StepM β} {w : Work}
    (hx : ReflTransGen r w (x.after w)) (hf : ∀ a, Runs r (f a)) :
    ReflTransGen r w ((x >>= f).after w) := by
  unfold after at hx
  show ReflTransGen r w (after (EStateM.bind x f) w)
  unfold after EStateM.bind
  cases hres : x w with
  | ok a w' =>
      rw [hres] at hx
      exact hx.trans (hf a w')
  | error e w' =>
      rw [hres] at hx
      exact hx

theorem Runs.bind {x : StepM α} {f : α → StepM β} (hx : Runs r x) (hf : ∀ a, Runs r (f a)) :
    Runs r (x >>= f) := fun w => reflTransGen_bind (hx w) hf

/-- A change of the state, as a part of a step. -/
theorem Runs.modify {f : Work → Work} (h : ∀ w, r w (f w)) : Runs r (modify f : StepM Unit) :=
  fun w => .single (h w)

/-- What follows may depend on the state. -/
theorem Runs.get_bind {f : Work → StepM β} (h : ∀ w, ReflTransGen r w ((f w).after w)) :
    Runs r (get >>= f) := fun w => h w

theorem Runs.mono {r' : Work → Work → Prop} (hr : ∀ w w', r w w' → r' w w') {x : StepM α}
    (h : Runs r x) : Runs r' x := fun w => ReflTransGen.mono hr w _ (h w)

/-- A part of a step that makes changes of one kind only when it begins in a state of a kind, which
it does not leave. -/
def RunsFrom {α : Type} (p : Work → Prop) (r : Work → Work → Prop) (x : StepM α) : Prop :=
  ∀ w, p w → ReflTransGen r w (x.after w) ∧ p (x.after w)

theorem Runs.runsFrom {p : Work → Prop} (hp : ∀ w w', r w w' → p w → p w') {x : StepM α}
    (h : Runs r x) : RunsFrom p r x := by
  intro w hw
  refine ⟨h w, ?_⟩
  have hrun := h w
  generalize x.after w = w' at hrun
  induction hrun with
  | refl => exact hw
  | tail _ hstep ih => exact hp _ _ hstep ih

theorem RunsFrom.mono {p : Work → Prop} {r' : Work → Work → Prop}
    (hr : ∀ w w', r w w' → r' w w') {x : StepM α} (h : RunsFrom p r x) : RunsFrom p r' x :=
  fun w hw => ⟨ReflTransGen.mono hr w _ (h w hw).1, (h w hw).2⟩

theorem RunsFrom.bind {p : Work → Prop} {x : StepM α} {f : α → StepM β} (hx : RunsFrom p r x)
    (hf : ∀ a, RunsFrom p r (f a)) : RunsFrom p r (x >>= f) := by
  intro w hw
  have hx' := hx w hw
  unfold after at hx'
  show ReflTransGen r w (after (EStateM.bind x f) w) ∧ p (after (EStateM.bind x f) w)
  unfold after EStateM.bind
  cases hres : x w with
  | ok a w' =>
      rw [hres] at hx'
      obtain ⟨hrun, hw'⟩ := hf a w' hx'.2
      exact ⟨hx'.1.trans hrun, hw'⟩
  | error e w' =>
      rw [hres] at hx'
      exact hx'

theorem Runs.args {event : Event} {params : Json} : Runs r (StepM.args event params) :=
  fun _ => .refl

/-! ### Steps that go through -/

/-- A part of a step that goes through has gone through in each of its parts. -/
theorem bind_eq_ok {α β : Type} {x : StepM α} {f : α → StepM β} {w w' : Work} {b : β}
    (h : (x >>= f) w = .ok b w') : ∃ a w₁, x w = .ok a w₁ ∧ f a w₁ = .ok b w' := by
  have h' : EStateM.bind x f w = .ok b w' := h
  unfold EStateM.bind at h'
  split at h'
  · rename_i a w₁ hx
    exact ⟨a, w₁, hx, h'⟩
  · cases h'

theorem after_of_ok {α : Type} {x : StepM α} {w w' : Work} {a : α} (h : x w = .ok a w') :
    x.after w = w' := by
  rw [after, h]

theorem bind_of_ok {x : StepM α} {f : α → StepM β} {w w' : Work} {a : α}
    (h : x w = .ok a w') : (x >>= f) w = f a w' := by
  show EStateM.bind x f w = f a w'
  rw [EStateM.bind, h]

theorem get_ok (w : Work) : (get : StepM Work) w = .ok w w := rfl

theorem mark_ok (k : Mark) (w : Work) : mark k w = .ok () { w with journal := k :: w.journal } := rfl

theorem after_congr {x y : StepM α} {w w' : Work} (h : x w = y w') : x.after w = y.after w' := by
  rw [after, after, h]

/-- What every single change of a kind keeps is kept. -/
theorem Runs.keeps {α β : Type} {r : Work → Work → Prop} {x : StepM α} (h : Runs r x)
    {f : Work → β} (hf : ∀ w w', r w w' → f w' = f w) {w w' : Work} {a : α}
    (hok : x w = .ok a w') : f w' = f w := by
  have hrun := h w
  rw [after_of_ok hok] at hrun
  clear hok
  induction hrun with
  | refl => rfl
  | tail _ hstep ih => exact (hf _ _ hstep).trans ih

end StepM

/-- The transitions of a list that do something. -/
def Definition.permitted {L : Type} (d : Definition L) (ts : List Nat) : List (Transition L) :=
  (ts.map d.transition).filter fun t => !t.forbidden

namespace Machine

open StepM

variable (m : Machine)

/-! ## Actions -/

/-- The single changes that actions make. -/
inductive Acts : Work → Work → Prop
  | assigned (w : Work) (context : Json) :
      Acts w { w with snapshot := { w.snapshot with context } }
  | marked (w : Work) (k : Mark) : Acts w { w with journal := k :: w.journal }
  | recorded (w : Work) (a : ExecutedAction) :
      Acts w { w with snapshot := { w.snapshot with actions := w.snapshot.actions ++ [a] } }
  | raised (w : Work) (event : Event) :
      Acts w { w with internal := w.internal ++ [event], journal := .raised event :: w.journal }
  /-- Starts and stops are asked for with the changes that belong to them. -/
  | asked (w : Work) (effect : Effect) (h : ∀ c, effect ≠ .start c ∧ effect ≠ .stop c) :
      Acts w { w with scope := { w.scope with effects := w.scope.effects ++ [effect] } }
  | noted (w : Work) (n : Notice) :
      Acts w { w with scope := { w.scope with system := w.scope.system.note n } }
  | spawned (w : Work) (logic : Logic) (spec : ActorSpec) (system : System) (child : Session)
      (hparent : spec.parent = some w.scope.session) (hfresh : spec.snapshot = none)
      (hsource : ∀ key, spec.source = some key → m.implementations.actors key = some logic)
      (hspawn : m.spawn w.system logic spec = (system, .ok child)) :
      Acts w { w with
        snapshot := { w.snapshot with
          children := SortedMap.insert (system.actor child).id child w.snapshot.children }
        scope := { w.scope with
          system := { system with pins := w.scope.system.pins }
          effects := w.scope.effects ++ [.start child] } }
  | spawnFailed (w : Work) (logic : Logic) (spec : ActorSpec) (system : System) (e : ActorError)
      (hparent : spec.parent = some w.scope.session) (hfresh : spec.snapshot = none)
      (hspawn : m.spawn w.system logic spec = (system, .error e)) :
      Acts w { w with
        scope := { w.scope with system := { system with pins := w.scope.system.pins } } }
  | stopped (w : Work) (id : String) (child : Session)
      (hchild : SortedMap.find? id w.snapshot.children = some child) :
      Acts w { w with
        snapshot := { w.snapshot with children := SortedMap.erase id w.snapshot.children }
        scope := { w.scope with effects := w.scope.effects ++ [.stop child] } }

variable {m}

theorem runs_recordAction {kind : String} {params : Json} :
    Runs m.Acts (recordAction kind params) :=
  .modify fun w => .recorded w _

theorem runs_pushEffect {effect : Effect} (h : ∀ c, effect ≠ .start c ∧ effect ≠ .stop c) :
    Runs m.Acts (pushEffect effect) :=
  .modify fun w => .asked w effect h

theorem runs_raise {event : Event} : Runs m.Acts (raise event) :=
  .modify fun w => .raised w event

theorem runs_missing {kind name : String} : Runs m.Acts (missing kind name) := by
  intro w
  show ReflTransGen m.Acts w (if w.scope.system.config.devMode then _ else w)
  split
  · exact .single (.noted w _)
  · exact .refl

theorem runs_delayMs? {event : Event} {params : Json} {delay : Delay} :
    Runs m.Acts (m.delayMs? event params delay) := by
  cases delay with
  | ms n => exact .pure _
  | named name =>
      unfold delayMs?
      simp only
      split
      · exact .bind .args fun _ => .pure _
      · exact .bind runs_missing fun _ => .pure _

theorem runs_unreachable {e : ActorError} : Runs m.Acts (unreachable e) := by
  refine .get_bind fun w => ?_
  by_cases h : w.scope.parent.isNone = true
  · simp only [h, if_true]
    exact (Runs.bind (.throw e) fun _ => .bind (.pure _) fun _ => runs_raise) w
  · simp only [h]
    exact (Runs.bind (.pure _) fun _ => runs_raise) w

theorem runs_assign {assignment : Assignment} {event : Event} {params : Json} :
    Runs m.Acts (assign assignment event params) := by
  refine .bind .args fun a => ?_
  cases assignment.apply a with
  | ok context => exact .modify fun w => .assigned w context
  | error e => exact .bind (.modify fun w => .marked w _) fun _ => runs_raise

theorem runs_raiseSelf {expr : EventExpr} {delay : Option Delay} {id : Option String}
    {event : Event} {params : Json} : Runs m.Acts (m.raiseSelf expr delay id event params) := by
  refine .bind .args fun a => ?_
  cases delay with
  | none => exact .bind runs_raise fun _ => runs_recordAction
  | some delay =>
      refine .bind runs_delayMs? fun ms => ?_
      cases ms with
      | none => exact .pure _
      | some ms =>
          refine .get_bind fun w => ?_
          exact (Runs.bind (runs_pushEffect (by simp)) fun _ => runs_recordAction) w

theorem runs_sendTo {target : SendTarget} {expr : EventExpr} {delay : Option Delay}
    {id : Option String} {event : Event} {params : Json} :
    Runs m.Acts (m.sendTo target expr delay id event params) := by
  refine .get_bind fun w => ?_
  refine (Runs.bind .args fun a => ?_) w
  simp only
  cases destination w target with
  | error e => exact runs_unreachable
  | ok recipient =>
      have hsend : ∀ (target name : String) (event : Event) (ms : Option Nat),
          Runs m.Acts (do
            recordAction "sendTo" (.obj [("to", .str target), ("event", .str name)])
            pushEffect (.send recipient event ms id)) :=
        fun _ _ _ _ => .bind runs_recordAction fun _ => runs_pushEffect (by simp)
      cases delay with
      | none => exact hsend _ _ _ _
      | some delay =>
          refine .bind runs_delayMs? fun ms => ?_
          cases ms with
          | none => exact .pure _
          | some ms => exact hsend _ _ _ _

theorem runs_log {label : Option String} {value : Option ValueExpr} {event : Event}
    {params : Json} : Runs m.Acts (log label value event params) :=
  .bind .args fun _ => .bind (runs_pushEffect (by simp)) fun _ => runs_recordAction

theorem runs_spawnChild {logic : Logic} {key id systemId : Option String} {input : ValueExpr}
    {event : Event} {params : Json}
    (hkey : ∀ k, key = some k → m.implementations.actors k = some logic) :
    Runs m.Acts (m.spawnChild logic key id systemId input event params) := by
  refine .bind .args fun a => ?_
  refine .get_bind fun w => ?_
  simp only
  split
  · rename_i made child hmade
    exact (ReflTransGen.single (.spawned w logic _ _ child rfl rfl hkey (Prod.ext rfl hmade))).tail
      (.recorded _ _)
  · rename_i made e hmade
    exact (ReflTransGen.single (.spawnFailed w logic _ _ e rfl rfl (Prod.ext rfl hmade))).tail
      (.raised _ _)

theorem runs_spawn? {source : LogicSource Logic} {id systemId : Option String}
    {input : ValueExpr} {event : Event} {params : Json} :
    Runs m.Acts (m.spawn? source id systemId input event params) := by
  cases source with
  | inline logic => exact runs_spawnChild (by simp)
  | key key =>
      unfold spawn?
      simp only
      split
      · rename_i logic hlogic
        -- What is spawned under a key is the behaviour that the key stands for.
        refine runs_spawnChild fun k hk => ?_
        cases hk
        exact hlogic
      · exact runs_missing

theorem runs_stopChild {id : String} : Runs m.Acts (stopChild id) := by
  refine .get_bind fun w => ?_
  cases hchild : SortedMap.find? id w.snapshot.children with
  | none => exact (Runs.bind (.pure _) fun _ => runs_recordAction) w
  | some child =>
      exact (ReflTransGen.single (.stopped w id child hchild)).tail (.recorded _ _)

theorem runs_pushExec {name : String} {run : ActionArgs → Script (Except ActionError Unit)}
    {event : Event} {params : Json} : Runs m.Acts (pushExec name run event params) :=
  .bind .args fun _ => .bind (runs_pushEffect (by simp)) fun _ => runs_recordAction

theorem runs_perform {event : Event} {task : Task} : Runs m.Acts (m.perform event task) := by
  obtain ⟨action, params⟩ := task
  cases action with
  | named name own =>
      unfold perform
      simp only
      split
      · exact .bind runs_pushExec fun _ => .pure _
      · exact .pure _
      · exact .bind runs_missing fun _ => .pure _
  | assign assignment =>
      exact .bind runs_assign fun _ => .bind runs_recordAction fun _ => .pure _
  | raise expr delay id => exact .bind runs_raiseSelf fun _ => .pure _
  | sendTo target expr delay id => exact .bind runs_sendTo fun _ => .pure _
  | log label value => exact .bind runs_log fun _ => .pure _
  | spawn source id systemId input => exact .bind runs_spawn? fun _ => .pure _
  | stop id => exact .bind runs_stopChild fun _ => .pure _
  | cancel id =>
      exact .bind (runs_pushEffect (by simp)) fun _ => .bind runs_recordAction fun _ => .pure _
  | choose branches =>
      refine .get_bind fun w => ?_
      cases m.chooseBranch w event branches with
      | ok actions => exact .refl
      | error e => exact .refl
  | enqueue f => exact .bind .args fun _ => .pure _
  | custom run => exact .bind runs_pushExec fun _ => .pure _

theorem runs_performAll {event : Event} : ∀ {fuel : Nat} {tasks : List Task},
    Runs m.Acts (m.performAll event fuel tasks)
  | 0, [] => .pure _
  | _ + 1, [] => .pure _
  | 0, _ :: _ => .get_bind fun _ => .refl
  | _ + 1, _ :: _ => .bind runs_perform fun _ => runs_performAll

/-- The actions of a list make changes of these kinds only. -/
theorem runs_execute {actions : List (Action Logic)} {event : Event} :
    Runs m.Acts (m.execute actions event) := runs_performAll

theorem runs_mark {k : Mark} : Runs m.Acts (mark k) := .modify fun w => .marked w k

theorem runs_raiseDone {state : Nat} {output : Json} : Runs m.Acts (m.raiseDone state output) :=
  .bind runs_mark fun _ => runs_raise

theorem runs_completeRegions : ∀ {ancestors raised : List Nat},
    Runs m.Acts (m.completeRegions raised ancestors)
  | [], _ => .pure _
  | a :: rest, raised => by
      refine .get_bind fun w => ?_
      simp only
      split
      · exact (Runs.bind runs_raiseDone fun _ => runs_completeRegions) w
      · exact runs_completeRegions w

theorem runs_completeAround {raised : List Nat} {final : Nat} :
    Runs m.Acts (m.completeAround raised final) := by
  unfold completeAround
  simp only
  split
  · exact .pure _
  · split
    · exact .pure _
    · exact .bind runs_raiseDone fun _ => runs_completeRegions

theorem runs_runExits {event : Event} : ∀ {states : List Nat},
    Runs m.Acts (m.runExits event states)
  | [] => .pure _
  | _ :: _ => .bind runs_execute fun _ => .bind runs_mark fun _ => runs_runExits

theorem runs_runAllExits {event : Event} : Runs m.Acts (m.runAllExits event) :=
  .get_bind fun w => runs_runExits w

theorem runs_runTransitions {event : Event} : ∀ {ts : List (Transition Logic)},
    Runs m.Acts (m.runTransitions event ts)
  | [] => .pure _
  | _ :: _ => .bind runs_execute fun _ => .bind runs_mark fun _ => runs_runTransitions

/-! ## Macrosteps -/

variable (m) in
/-- The states that a step may enter with what is remembered. -/
def Enterable (history : HistoryValue) (state : Nat) : Prop :=
  state ∈ m.definition.initialEntrySet ∨
    ∃ ts : List Nat, state ∈ m.definition.entrySet history (m.definition.permitted ts)

variable (m) in
/-- The single changes that macrosteps and stops make, given the external event. -/
inductive Proceeds (external : Option Event) : Work → Work → Prop
  | acted {w w' : Work} (h : m.Acts w w') : Proceeds external w w'
  | exited (w : Work) (state : Nat) :
      Proceeds external w { w with
        snapshot := { w.snapshot with config := w.snapshot.config.erase state } }
  | remembered (w : Work) (exiting : List Nat) :
      Proceeds external w { w with
        snapshot := { w.snapshot with
          history :=
            m.definition.recordHistory w.snapshot.config exiting w.snapshot.history } }
  | entered (w : Work) (state : Nat) (h : m.Enterable w.snapshot.history state) :
      Proceeds external w { w with
        snapshot := { w.snapshot with config := w.snapshot.config.insert state } }
  | completed (w : Work) :
      Proceeds external w { w with
        snapshot := { w.snapshot with
          status := .done, output := m.finalOutput w.snapshot.config } }
  | erred (w : Work) (data : Json) :
      Proceeds external w { w with
        snapshot := { w.snapshot with status := .error, error := some data } }
  | halted (w : Work) :
      Proceeds external w { w with snapshot := { w.snapshot with status := .stopped } }
  /-- A child is let go that the external event reports the end of. -/
  | released (w : Work) (event : Event) (id : String) (child : Session)
      (hexternal : external = some event) (hid : event.completedChild? = some id)
      (hchild : w.snapshot.child? id = some child) (horigin : event.origin = some child.text) :
      Proceeds external w { w with
        snapshot := { w.snapshot with children := SortedMap.erase id w.snapshot.children } }
  | took (w : Work) (event : Event) (rest : List Event) (h : w.internal = event :: rest) :
      Proceeds external w { w with internal := rest }

variable {external : Option Event}

theorem Acts.history_eq {w w' : Work} (h : m.Acts w w') :
    w'.snapshot.history = w.snapshot.history := by
  cases h <;> rfl

theorem proceeds_of_acts {α : Type} {x : StepM α} (h : Runs m.Acts x) :
    Runs (m.Proceeds external) x :=
  h.mono fun _ _ => .acted

/-- Actions do not touch what is remembered. -/
theorem fromHistory_of_acts {α : Type} {x : StepM α} {history : HistoryValue}
    (h : Runs m.Acts x) :
    RunsFrom (fun w => w.snapshot.history = history) (m.Proceeds external) x :=
  (h.runsFrom fun _ _ hacts hw => hacts.history_eq.trans hw).mono fun _ _ => .acted

theorem proceeds_exitStates {event : Event} : ∀ {states : List Nat},
    Runs (m.Proceeds external) (m.exitStates event states)
  | [] => .pure _
  | state :: _ => .bind
      (.bind (proceeds_of_acts runs_execute) fun _ => .bind (proceeds_of_acts runs_mark) fun _ =>
        .modify fun w => .exited w state)
      fun _ => proceeds_exitStates

theorem proceeds_enterStates {history : HistoryValue} (event : Event) :
    ∀ {entering : List Nat} (raised : List Nat), (∀ state ∈ entering, m.Enterable history state) →
      RunsFrom (fun w => w.snapshot.history = history) (m.Proceeds external)
        (m.enterStates event raised entering)
  | [], _, _ => fun _ hw => ⟨.refl, hw⟩
  | state :: rest, raised, h => by
      refine .bind (fun w hw => ⟨.single (.entered w state ?_), hw⟩) fun _ => ?_
      · rw [hw]
        exact h state List.mem_cons_self
      · refine .bind (fromHistory_of_acts runs_execute) fun _ => ?_
        refine .bind (fromHistory_of_acts runs_mark) fun _ => ?_
        have hrest := fun raised => proceeds_enterStates event raised
          fun state' h' => h state' (List.mem_cons_of_mem _ h')
        simp only
        split
        · exact .bind (fromHistory_of_acts runs_completeAround) hrest
        · exact .bind (fun _ hw => ⟨.refl, hw⟩) hrest

theorem proceeds_complete {event : Event} : Runs (m.Proceeds external) (m.complete event) :=
  .bind (.modify fun w => .completed w) fun _ => proceeds_of_acts runs_runAllExits

theorem proceeds_enter {event : Event} {entering : List Nat} {w : Work}
    (h : ∀ state ∈ entering, m.Enterable w.snapshot.history state) :
    ReflTransGen (m.Proceeds external) w ((m.enter event entering).after w) := by
  refine reflTransGen_bind (proceeds_enterStates event [] h w rfl).1 fun _ => .get_bind fun w => ?_
  simp only
  split
  · exact proceeds_complete w
  · exact .refl

theorem proceeds_enterInitial {event : Event} : Runs (m.Proceeds external) (m.enterInitial event) :=
  fun _ => proceeds_enter fun _ h => .inl ((NodeSet.mem_toList _ _).mp h)

variable (m external) in
/-- A microstep does nothing if all its transitions are forbidden, and else tells of the others
first. -/
theorem microstep_marks (ts : List Nat) (event : Event) :
    let selected := (ts.map m.definition.transition).filter fun t => !t.forbidden
    (selected = [] ∧ m.microstep ts event = pure ()) ∨
      selected ≠ [] ∧ ∃ rest : Unit → StepM Unit, Runs (m.Proceeds external) (rest ()) ∧
        m.microstep ts event = mark (.microstep (selected.map Transition.index)) >>= rest := by
  intro selected
  by_cases hempty : selected.isEmpty = true
  · exact .inl ⟨List.isEmpty_iff.mp hempty, by rw [microstep, if_pos hempty]⟩
  · refine .inr ⟨fun hnil => hempty (List.isEmpty_iff.mpr hnil), _, ?_,
      by rw [microstep, if_neg hempty]⟩
    refine .get_bind fun w => ?_
    refine (Runs.bind (.modify fun w => .remembered w _) fun _ => ?_) w
    refine .bind proceeds_exitStates fun _ => ?_
    refine .bind (proceeds_of_acts runs_runTransitions) fun _ => .get_bind fun w => ?_
    exact proceeds_enter fun state h =>
      .inr ⟨ts, (NodeSet.mem_toList _ _).mp (List.mem_filter.mp h).1⟩

theorem proceeds_microstep {ts : List Nat} {event : Event} :
    Runs (m.Proceeds external) (m.microstep ts event) := by
  rcases microstep_marks m external ts event with ⟨-, hnothing⟩ | ⟨-, rest, hrest, hmarks⟩
  · rw [hnothing]
    exact .pure _
  · rw [hmarks]
    exact .bind (proceeds_of_acts runs_mark) fun _ => hrest

theorem proceeds_selectEventless {last : Event} :
    Runs (m.Proceeds external) (m.selectEventless last) := by
  refine .get_bind fun w => ?_
  split
  · exact .refl
  · exact .refl

theorem proceeds_handle {event : Event} : Runs (m.Proceeds external) (m.handle event) := by
  refine .get_bind fun w => ?_
  split
  · exact .refl
  · refine (Runs.bind (proceeds_of_acts runs_mark) fun _ => ?_) w
    split
    · split
      · exact .modify fun w => .erred w _
      · exact .pure _
    · exact proceeds_microstep

theorem proceeds_releaseCompleted {event : Event} :
    Runs (m.Proceeds (some event)) (releaseCompleted event) := by
  intro w
  show ReflTransGen (m.Proceeds (some event)) w { w with snapshot := _ }
  split
  · exact .refl
  · rename_i id hid
    dsimp only
    split
    · exact .refl
    · rename_i child hchild
      split
      · rename_i horigin
        exact .single (.released w event id child rfl hid hchild horigin)
      · exact .refl

theorem proceeds_nextInternal : Runs (m.Proceeds external) nextInternal := by
  refine .get_bind fun w => ?_
  split
  · exact .refl
  · rename_i event rest h
    exact .single (.took w event rest h)

theorem proceeds_settle : ∀ {fuel : Nat} {pending external : Option Event} {last : Event},
    (∀ event, pending = some event → external = some event) →
      Runs (m.Proceeds external) (m.settle fuel pending last)
  | 0, _, _, _, _ => .get_bind fun _ => .refl
  | fuel + 1, pending, external, last, hpending => by
      refine .get_bind fun w => ?_
      split
      · exact .refl
      · refine (Runs.bind proceeds_selectEventless fun selected => ?_) w
        split
        · exact .bind (proceeds_of_acts runs_mark) fun _ =>
            .bind proceeds_microstep fun _ => proceeds_settle hpending
        · refine .bind proceeds_nextInternal fun next => ?_
          cases next with
          | some event => exact .bind proceeds_handle fun _ => proceeds_settle hpending
          | none =>
              cases pending with
              | some event =>
                  rw [hpending event rfl]
                  exact .bind proceeds_releaseCompleted fun _ =>
                    .bind proceeds_handle fun _ => proceeds_settle (by simp)
              | none => exact .pure _

/-- A macrostep makes changes of these kinds only. -/
theorem runs_macrostep {trigger : Event} :
    Runs (m.Proceeds external) (m.macrostep external trigger) := proceeds_settle fun _ => id

end Machine

end Statechart
