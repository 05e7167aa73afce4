import Statechart.Proofs.Aliveness
import Statechart.Proofs.Timing

/-!
# Errors kept for the caller

Errors that nobody has handled are kept for the caller of a delivery, and nothing looks at them
until the outermost delivery ends: with more errors kept before, all goes as it does without
(`System.owing`, `Delivery.step_owing`).
-/

namespace Statechart

/-- The same system with more errors kept before. -/
def System.owing (errors : List ActorError) (sys : System) : System :=
  { sys with unhandled := errors ++ sys.unhandled }

def Scope.owing (errors : List ActorError) (scope : Scope) : Scope :=
  { scope with system := scope.system.owing errors }

def Work.owing (errors : List ActorError) (w : Work) : Work :=
  { w with scope := w.scope.owing errors }

variable (es : List ActorError)

/-! ## Looking actors up -/

namespace System

theorem reach_owing (sys : System) : ∀ (fuel : Nat) (found : NodeSet) (sessions : List Session),
    (sys.owing es).reach fuel found sessions = sys.reach fuel found sessions
  | 0, _, _ => by simp only [reach]
  | _ + 1, _, [] => rfl
  | fuel + 1, found, s :: rest => by
      have hkept : (sys.owing es).keptBy s = sys.keptBy s := rfl
      rw [reach_cons, reach_cons, reach_owing sys fuel, reach_owing sys fuel, hkept]

@[simp] theorem lookup?_owing (sys : System) (s : Session) :
    (sys.owing es).lookup? s = sys.lookup? s := by
  have halive : (sys.owing es).isAlive s = sys.isAlive s :=
    congrArg (NodeSet.contains · s.number) (reach_owing es sys _ _ _)
  unfold lookup?
  rw [halive]
  rfl

@[simp] theorem find?_owing (sys : System) (id : String) :
    (sys.owing es).find? id = sys.find? id := by
  unfold find?
  exact congrArg _ (funext (lookup?_owing es sys))

/-! ## Small operations -/

theorem modify_owing (sys : System) (s : Session) (f : Actor → Actor) :
    (sys.owing es).modify s f = (sys.modify s f).owing es := by
  have hactor : (sys.owing es).actor? s = sys.actor? s := rfl
  unfold modify
  rw [hactor]
  split <;> rfl

theorem setMailbox_owing (sys : System) (s : Session) (mailbox : Mailbox) :
    (sys.owing es).setMailbox s mailbox = (sys.setMailbox s mailbox).owing es :=
  modify_owing es sys s _

theorem report_owing : ∀ (lines : List Json) (sys : System),
    (sys.owing es).report lines = (sys.report lines).owing es
  | [], _ => rfl
  | line :: rest, sys => report_owing rest (sys.record (.line line))

theorem register_owing (sys : System) (a : Actor) :
    (sys.owing es).register a = (sys.register a).owing es := by
  unfold register
  cases a.systemId with
  | none => rfl
  | some systemId =>
      have hids : (sys.owing es).systemIds = sys.systemIds := rfl
      by_cases htaken : SortedMap.has systemId sys.systemIds = true <;>
      · simp only [setActor, hids, htaken]
        rfl

theorem unregister_owing (sys : System) (s : Session) (systemId : Option String) :
    (sys.owing es).unregister s systemId = (sys.unregister s systemId).owing es := by
  unfold unregister
  cases systemId with
  | none => rfl
  | some id =>
      have hids : (sys.owing es).systemIds = sys.systemIds := rfl
      simp only [hids]
      by_cases hown : SortedMap.find? id sys.systemIds = some s
      · rw [if_pos hown, if_pos hown]
        rfl
      · rw [if_neg hown, if_neg hown]
        rfl

theorem recordUnhandled_owing (sys : System) (e : ActorError) :
    (sys.owing es).recordUnhandled e = (sys.recordUnhandled e).owing es := by
  have hdepth : (sys.owing es).depth = sys.depth := rfl
  unfold recordUnhandled
  rw [hdepth]
  split
  · rfl
  · exact congrArg (fun unhandled => { sys with unhandled }) (List.append_assoc _ _ _)

end System

/-! ## Steps -/

namespace StepM

/-- What comes out of a step with more errors kept before. -/
def owed {α : Type} : EStateM.Result ActorError Work α → EStateM.Result ActorError Work α
  | .ok a w => .ok a (w.owing es)
  | .error e w => .error e (w.owing es)

/-- Whether a part of a step does not look at the errors that are kept. -/
def Blind {α : Type} (x : StepM α) : Prop :=
  ∀ (es : List ActorError) (w : Work), x (w.owing es) = owed es (x w)

variable {α β : Type}

theorem Blind.pure (a : α) : Blind (Pure.pure a : StepM α) := fun _ _ => rfl

theorem Blind.throw (e : ActorError) : Blind (MonadExcept.throw e : StepM α) := fun _ _ => rfl

theorem Blind.bind {x : StepM α} {f : α → StepM β} (hx : Blind x) (hf : ∀ a, Blind (f a)) :
    Blind (x >>= f) := by
  intro es w
  have hxw := hx es w
  simp only [Bind.bind, EStateM.bind]
  rw [hxw]
  cases x w with
  | ok a w' => exact hf a es w'
  | error e w' => rfl

theorem Blind.modify {f : Work → Work} (h : ∀ es w, f (w.owing es) = (f w).owing es) :
    Blind (modify f : StepM Unit) :=
  fun es w => congrArg (EStateM.Result.ok ()) (h es w)

/-- To read the state is blind if what follows is, and does not depend on the errors. -/
theorem Blind.get_bind {f : Work → StepM β} (hsame : ∀ es w, f (w.owing es) = f w)
    (hf : ∀ w, Blind (f w)) : Blind (get >>= f) := fun es w =>
  (congrFun (hsame es w) (w.owing es)).trans (hf w es w)

theorem Blind.args (event : Event) (params : Json) : Blind (StepM.args event params) :=
  .get_bind (fun _ _ => rfl) fun _ => .pure _

end StepM

open StepM

/-- A way to make new actors that does not look at the errors that are kept. -/
def Spawner.Blind (spawn : Spawner) : Prop :=
  ∀ (es : List ActorError) (sys : System) (logic : Logic) (spec : ActorSpec),
    spec.snapshot = none →
      spawn (sys.owing es) logic spec = ((spawn sys logic spec).1.owing es, (spawn sys logic spec).2)

namespace Machine

variable {m : Machine} {event : Event} {params : Json}

/-! ### Parts of actions -/

theorem blind_mark (k : Mark) : Blind (mark k) := .modify fun _ _ => rfl

theorem blind_modifySnapshot (f : MachineSnapshot → MachineSnapshot) : Blind (modifySnapshot f) :=
  .modify fun _ _ => rfl

theorem blind_recordAction (kind : String) (params : Json) : Blind (recordAction kind params) :=
  blind_modifySnapshot _

theorem blind_pushEffect (effect : Effect) : Blind (pushEffect effect) := .modify fun _ _ => rfl

theorem blind_raise (event : Event) : Blind (raise event) := .modify fun _ _ => rfl

theorem blind_missing (kind name : String) : Blind (missing kind name) := by
  refine .modify fun es w => ?_
  by_cases h : w.scope.system.config.devMode = true
  · have h' : (w.owing es).scope.system.config.devMode = true := h
    rw [if_pos h, if_pos h']
    rfl
  · have h' : ¬ (w.owing es).scope.system.config.devMode = true := h
    rw [if_neg h, if_neg h']

theorem blind_delayMs? (delay : Delay) : Blind (m.delayMs? event params delay) := by
  cases delay with
  | ms n => exact .pure _
  | named name =>
      unfold delayMs?
      simp only
      split
      · exact .bind (.args _ _) fun _ => .pure _
      · exact .bind (blind_missing _ _) fun _ => .pure _

theorem blind_unreachable (e : ActorError) : Blind (unreachable e) := by
  intro es w
  obtain ⟨snapshot, internal, ⟨system, session, id, parent, effects⟩, journal⟩ := w
  cases parent <;> rfl

theorem blind_assign (assignment : Assignment) : Blind (assign assignment event params) := by
  refine .bind (.args _ _) fun a => ?_
  cases assignment.apply a with
  | ok context => exact blind_modifySnapshot _
  | error e => exact .bind (blind_mark _) fun _ => blind_raise _

theorem blind_raiseSelf (expr : EventExpr) (delay : Option Delay) (id : Option String) :
    Blind (m.raiseSelf expr delay id event params) := by
  refine .bind (.args _ _) fun a => ?_
  cases delay with
  | none => exact .bind (blind_raise _) fun _ => blind_recordAction _ _
  | some delay =>
      refine .bind (blind_delayMs? delay) fun ms => ?_
      cases ms with
      | none => exact .pure _
      | some ms =>
          refine .get_bind (fun _ _ => rfl) fun w => ?_
          exact .bind (blind_pushEffect _) fun _ => blind_recordAction _ _

theorem destination_owing (es : List ActorError) (w : Work) (target : SendTarget) :
    destination (w.owing es) target = destination w target := by
  have hfind : ∀ id, (w.owing es).system.find? id = w.system.find? id :=
    System.find?_owing es w.system
  cases target with
  | system id =>
      unfold destination
      simp only [hfind]
      rfl
  | _ => rfl

theorem blind_sendTo (target : SendTarget) (expr : EventExpr) (delay : Option Delay)
    (id : Option String) : Blind (m.sendTo target expr delay id event params) := by
  refine .get_bind (fun es w => ?_) fun w => ?_
  · simp only [destination_owing]
    rfl
  · refine .bind (.args _ _) fun a => ?_
    simp only
    cases destination w target with
    | error e => exact blind_unreachable _
    | ok recipient =>
        have hsend : ∀ (target name : String) (event : Event) (ms : Option Nat), Blind (do
            recordAction "sendTo" (.obj [("to", .str target), ("event", .str name)])
            pushEffect (.send recipient event ms id)) :=
          fun _ _ _ _ => .bind (blind_recordAction _ _) fun _ => blind_pushEffect _
        cases delay with
        | none => exact hsend _ _ _ _
        | some delay =>
            refine .bind (blind_delayMs? delay) fun ms => ?_
            cases ms with
            | none => exact .pure _
            | some ms => exact hsend _ _ _ _

theorem blind_log (label : Option String) (value : Option ValueExpr) :
    Blind (log label value event params) :=
  .bind (.args _ _) fun _ => .bind (blind_pushEffect _) fun _ => blind_recordAction _ _

theorem blind_spawnChild (hspawn : Spawner.Blind m.spawn) (logic : Logic)
    (key id systemId : Option String) (input : ValueExpr) :
    Blind (m.spawnChild logic key id systemId input event params) := by
  obtain ⟨definition, implementations, spawn⟩ := m
  refine .bind (.args _ _) fun a es w => ?_
  -- the child that is made is the same, in a system that keeps the errors
  have hmade := hspawn es w.system logic
    { id, parent := some w.scope.session, source := key, systemId, input := input.eval a } rfl
  have hsystem : (w.owing es).system = w.system.owing es := rfl
  have hsession : (w.owing es).scope.session = w.scope.session := rfl
  simp only [Bind.bind, EStateM.bind, get, getThe, MonadStateOf.get, set] at hmade ⊢
  delta EStateM.get EStateM.set
  simp only [hsystem, hsession, hmade]
  cases (spawn w.system logic
    { id, parent := some w.scope.session, source := key, systemId, input := input.eval a }).2 <;>
    rfl

theorem blind_spawn? (hspawn : Spawner.Blind m.spawn) (source : LogicSource Logic)
    (id systemId : Option String) (input : ValueExpr) :
    Blind (m.spawn? source id systemId input event params) := by
  cases source with
  | inline logic => exact blind_spawnChild hspawn _ _ _ _ _
  | key key =>
      unfold spawn?
      simp only
      split
      · exact blind_spawnChild hspawn _ _ _ _ _
      · exact blind_missing _ _

theorem blind_stopChild (id : String) : Blind (stopChild id) := by
  refine .get_bind (fun _ _ => rfl) fun w => ?_
  cases SortedMap.find? id w.snapshot.children with
  | none => exact blind_recordAction _ _
  | some child =>
      exact .bind (blind_modifySnapshot _) fun _ => .bind (blind_pushEffect _) fun _ =>
        blind_recordAction _ _

theorem blind_pushExec (name : String)
    (run : ActionArgs → Script (Except ActionError Unit)) :
    Blind (pushExec name run event params) :=
  .bind (.args _ _) fun _ => .bind (blind_pushEffect _) fun _ => blind_recordAction _ _

/-! ### Actions -/

theorem chooseBranch_owing (es : List ActorError) (w : Work) (event : Event) :
    ∀ branches, m.chooseBranch (w.owing es) event branches = m.chooseBranch w event branches
  | [] => rfl
  | branch :: rest => by
      have hsnapshot : (w.owing es).snapshot = w.snapshot := rfl
      rw [chooseBranch, chooseBranch, chooseBranch_owing es w event rest, hsnapshot]

theorem blind_perform (hspawn : Spawner.Blind m.spawn) (event : Event) (task : Task) :
    Blind (m.perform event task) := by
  obtain ⟨action, params⟩ := task
  cases action with
  | named name own =>
      unfold perform
      simp only
      split
      · exact .bind (blind_pushExec _ _) fun _ => .pure _
      · exact .pure _
      · exact .bind (blind_missing _ _) fun _ => .pure _
  | assign assignment =>
      exact .bind (blind_assign _) fun _ => .bind (blind_recordAction _ _) fun _ => .pure _
  | raise expr delay id => exact .bind (blind_raiseSelf _ _ _) fun _ => .pure _
  | sendTo target expr delay id => exact .bind (blind_sendTo _ _ _ _) fun _ => .pure _
  | log label value => exact .bind (blind_log _ _) fun _ => .pure _
  | spawn source id systemId input => exact .bind (blind_spawn? hspawn _ _ _ _) fun _ => .pure _
  | stop id => exact .bind (blind_stopChild _) fun _ => .pure _
  | cancel id =>
      exact .bind (blind_pushEffect _) fun _ => .bind (blind_recordAction _ _) fun _ => .pure _
  | choose branches =>
      refine .get_bind (fun es w => ?_) fun w => ?_
      · simp only [chooseBranch_owing]
      · cases m.chooseBranch w event branches with
        | ok actions => exact .pure _
        | error e => exact .throw _
  | enqueue f => exact .bind (.args _ _) fun _ => .pure _
  | custom run => exact .bind (blind_pushExec _ _) fun _ => .pure _

theorem blind_performAll (hspawn : Spawner.Blind m.spawn) (event : Event) :
    ∀ (fuel : Nat) (tasks : List Task), Blind (m.performAll event fuel tasks)
  | 0, [] => .pure _
  | _ + 1, [] => .pure _
  | 0, _ :: _ => .get_bind (fun _ _ => rfl) fun _ => .throw _
  | fuel + 1, task :: _ => .bind (blind_perform hspawn event task) fun _ =>
      blind_performAll hspawn event fuel _

theorem blind_execute (hspawn : Spawner.Blind m.spawn) (actions : List (Action Logic))
    (event : Event) : Blind (m.execute actions event) := blind_performAll hspawn event _ _

/-! ### Microsteps -/

theorem blind_raiseDone (state : Nat) (output : Json) : Blind (m.raiseDone state output) :=
  .bind (blind_mark _) fun _ => blind_raise _

theorem blind_completeRegions : ∀ ancestors raised : List Nat,
    Blind (m.completeRegions raised ancestors)
  | [], _ => .pure _
  | a :: rest, raised => by
      refine .get_bind (fun _ _ => rfl) fun w => ?_
      simp only
      split
      · exact .bind (blind_raiseDone _ _) fun _ => blind_completeRegions rest _
      · exact blind_completeRegions rest raised

theorem blind_completeAround (raised : List Nat) (final : Nat) :
    Blind (m.completeAround raised final) := by
  unfold completeAround
  simp only
  split
  · exact .pure _
  · split
    · exact .pure _
    · exact .bind (blind_raiseDone _ _) fun _ => blind_completeRegions _ _

theorem blind_runExits (hspawn : Spawner.Blind m.spawn) (event : Event) : ∀ states : List Nat,
    Blind (m.runExits event states)
  | [] => .pure _
  | _ :: rest => .bind (blind_execute hspawn _ _) fun _ => .bind (blind_mark _) fun _ =>
      blind_runExits hspawn event rest

theorem blind_runAllExits (hspawn : Spawner.Blind m.spawn) (event : Event) :
    Blind (m.runAllExits event) :=
  .get_bind (fun _ _ => rfl) fun _ => blind_runExits hspawn event _

theorem blind_runTransitions (hspawn : Spawner.Blind m.spawn) (event : Event) :
    ∀ ts : List (Transition Logic), Blind (m.runTransitions event ts)
  | [] => .pure _
  | _ :: rest => .bind (blind_execute hspawn _ _) fun _ => .bind (blind_mark _) fun _ =>
      blind_runTransitions hspawn event rest

theorem blind_exitStates (hspawn : Spawner.Blind m.spawn) (event : Event) :
    ∀ states : List Nat, Blind (m.exitStates event states)
  | [] => .pure _
  | _ :: rest => .bind
      (.bind (blind_execute hspawn _ _) fun _ => .bind (blind_mark _) fun _ =>
        blind_modifySnapshot _)
      fun _ => blind_exitStates hspawn event rest

theorem blind_enterStates (hspawn : Spawner.Blind m.spawn) (event : Event) :
    ∀ entering raised : List Nat, Blind (m.enterStates event raised entering)
  | [], _ => .pure _
  | state :: rest, raised => by
      refine .bind (blind_modifySnapshot _) fun _ => .bind (blind_execute hspawn _ _) fun _ =>
        .bind (blind_mark _) fun _ => ?_
      simp only
      split
      · exact .bind (blind_completeAround _ _) fun raised =>
          blind_enterStates hspawn event rest raised
      · exact .bind (.pure _) fun raised => blind_enterStates hspawn event rest raised

theorem blind_complete (hspawn : Spawner.Blind m.spawn) (event : Event) :
    Blind (m.complete event) :=
  .bind (blind_modifySnapshot _) fun _ => blind_runAllExits hspawn event

theorem blind_enter (hspawn : Spawner.Blind m.spawn) (event : Event) (entering : List Nat) :
    Blind (m.enter event entering) := by
  refine .bind (blind_enterStates hspawn event _ _) fun _ => .get_bind (fun _ _ => rfl) fun w => ?_
  simp only
  split
  · exact blind_complete hspawn event
  · exact .pure _

theorem blind_microstep (hspawn : Spawner.Blind m.spawn) (ts : List Nat) (event : Event) :
    Blind (m.microstep ts event) := by
  unfold microstep
  simp only
  split
  · exact .pure _
  · refine .bind (blind_mark _) fun _ => .get_bind (fun _ _ => rfl) fun w => ?_
    refine .bind (blind_modifySnapshot _) fun _ => .bind (blind_exitStates hspawn _ _) fun _ => ?_
    refine .bind (blind_runTransitions hspawn _ _) fun _ => .get_bind (fun _ _ => rfl) fun w => ?_
    exact blind_enter hspawn _ _

/-! ### Macrosteps -/

theorem blind_selectEventless (last : Event) : Blind (m.selectEventless last) := by
  refine .get_bind (fun _ _ => rfl) fun w => ?_
  split
  · exact .pure _
  · exact .throw _

theorem blind_handle (hspawn : Spawner.Blind m.spawn) (event : Event) :
    Blind (m.handle event) := by
  refine .get_bind (fun _ _ => rfl) fun w => ?_
  split
  · exact .throw _
  · refine .bind (blind_mark _) fun _ => ?_
    split
    · split
      · exact blind_modifySnapshot _
      · exact .pure _
    · exact blind_microstep hspawn _ _

theorem blind_nextInternal : Blind nextInternal := by
  intro es w
  obtain ⟨snapshot, internal, scope, journal⟩ := w
  cases internal <;> rfl

theorem blind_settle (hspawn : Spawner.Blind m.spawn) :
    ∀ (fuel : Nat) (pending : Option Event) (last : Event), Blind (m.settle fuel pending last)
  | 0, _, _ => .get_bind (fun _ _ => rfl) fun _ => .throw _
  | fuel + 1, pending, last => by
      refine .get_bind (fun _ _ => rfl) fun w => ?_
      split
      · exact .pure _
      · refine .bind (blind_selectEventless last) fun selected => ?_
        split
        · exact .bind (blind_mark _) fun _ => .bind (blind_microstep hspawn _ _) fun _ =>
            blind_settle hspawn fuel _ _
        · refine .bind blind_nextInternal fun next => ?_
          cases next with
          | some event =>
              exact .bind (blind_handle hspawn _) fun _ => blind_settle hspawn fuel _ _
          | none =>
              cases pending with
              | some event =>
                  exact .bind (blind_modifySnapshot _) fun _ =>
                    .bind (blind_handle hspawn _) fun _ => blind_settle hspawn fuel _ _
              | none => exact .pure _

theorem blind_macrostep (hspawn : Spawner.Blind m.spawn) (external : Option Event)
    (trigger : Event) : Blind (m.macrostep external trigger) := blind_settle hspawn _ _ _

/-! ### Machines -/

variable {scope : Scope}

theorem outcome_owing {x : StepM Unit} (hx : Blind x) (pins : List Session)
    (before : Option MachineSnapshot) (s : MachineSnapshot) (es : List ActorError) :
    outcome pins before (runStep (scope.owing es) s x) =
      (outcome pins before (runStep scope s x)).map (Scope.owing es) id := by
  have hrun : runStep (scope.owing es) s x = owed es (runStep scope s x) :=
    hx es (begin { scope with system := scope.system.pinning (s.children.map Prod.snd) } s)
  rw [hrun]
  cases runStep scope s x <;> rfl

theorem initialState_owing (hspawn : Spawner.Blind m.spawn) (scope : Scope) (input : Json)
    (es : List ActorError) :
    m.initialState (scope.owing es) input =
      (m.initialState scope input).map (Scope.owing es) id :=
  outcome_owing (.bind (blind_enter hspawn _ _) fun _ => blind_macrostep hspawn _ _) _ _ _ es

theorem transition_owing (hspawn : Spawner.Blind m.spawn) (scope : Scope) (s : MachineSnapshot)
    (event : Event) (es : List ActorError) :
    m.transition (scope.owing es) s event =
      (m.transition scope s event).map (Scope.owing es) id := by
  unfold transition
  split
  · exact outcome_owing (blind_macrostep hspawn _ _) _ _ _ es
  · rfl

theorem stop_owing (hspawn : Spawner.Blind m.spawn) (scope : Scope) (s : MachineSnapshot)
    (es : List ActorError) :
    m.stop (scope.owing es) s = (m.stop scope s).map (Scope.owing es) id := by
  have hrun : ∀ pins, outcome pins (some s) (m.stopRun (scope.owing es) s) =
      (outcome pins (some s) (m.stopRun scope s)).map (Scope.owing es) id := fun pins =>
    outcome_owing (.bind (blind_runAllExits hspawn _) fun _ => blind_modifySnapshot _) _ _ _ es
  unfold stop
  split
  · have hpins : (scope.owing es).system.pins = scope.system.pins := rfl
    rw [hpins, hrun]
    obtain ⟨scope₁, result⟩ := outcome scope.system.pins (some s) (m.stopRun scope s)
    cases result <;> rfl
  · rfl

end Machine

/-! ## Behaviours -/

section Behaviours

variable {spawn : Spawner}

theorem Scope.surroundings_owing (scope : Scope) :
    (scope.owing es).surroundings = scope.surroundings := by
  have hfind : ∀ sessions, ((scope.owing es).system.pinning sessions).find? =
      (scope.system.pinning sessions).find? := fun sessions =>
    funext (System.find?_owing es (scope.system.pinning sessions))
  unfold surroundings
  rw [hfind]
  rfl

theorem Scope.absorb_owing {α : Type} (scope : Scope) (o : Outcome α) :
    (scope.owing es).absorb o = (scope.absorb o).owing es := by
  have hreport := System.report_owing es o.reports scope.system
  unfold absorb
  rw [show (scope.owing es).system = scope.system.owing es from rfl, hreport]
  rfl

theorem Logic.initialSnapshot_owing (hspawn : Spawner.Blind spawn) (scope : Scope) (input : Json)
    (logic : Logic) : logic.initialSnapshot spawn (scope.owing es) input =
      (logic.initialSnapshot spawn scope input).map (Scope.owing es) id := by
  cases logic with
  | machine d implementations =>
      unfold initialSnapshot
      simp only [Machine.initialState_owing (m := { definition := d, implementations, spawn })
        hspawn scope input es]
      generalize Machine.initialState _ _ _ = out
      rfl
  | _ => rfl

theorem Logic.start_owing (scope : Scope) (s : Snapshot) (logic : Logic) :
    logic.start (scope.owing es) s = (logic.start scope s).map (Scope.owing es) id := by
  cases logic with
  | task run =>
      cases s with
      | machine current => rfl
      | value v =>
          unfold start
          simp only [Scope.surroundings_owing, Scope.absorb_owing]
          split <;> rfl
  | _ => rfl

theorem Logic.transition_owing (hspawn : Spawner.Blind spawn) (scope : Scope) (s : Snapshot)
    (event : Event) (logic : Logic) : logic.transition spawn (scope.owing es) s event =
      (logic.transition spawn scope s event).map (Scope.owing es) id := by
  cases logic with
  | machine d implementations =>
      cases s with
      | machine current =>
          unfold transition
          simp only [Machine.transition_owing (m := { definition := d, implementations, spawn })
            hspawn scope current event es]
          generalize Machine.transition _ _ _ _ = out
          rfl
      | value v => rfl
  | reducer initial next =>
      cases s with
      | machine current => rfl
      | value v =>
          unfold transition
          simp only [Scope.surroundings_owing, Scope.absorb_owing]
          split <;> rfl
  | task run => rfl

theorem Logic.stop_owing (hspawn : Spawner.Blind spawn) (scope : Scope) (s : Snapshot)
    (logic : Logic) : logic.stop spawn (scope.owing es) s =
      (logic.stop spawn scope s).map (Scope.owing es) id := by
  cases logic with
  | machine d implementations =>
      cases s with
      | machine current =>
          unfold stop
          simp only [Machine.stop_owing (m := { definition := d, implementations, spawn })
            hspawn scope current es]
          generalize Machine.stop _ _ _ = out
          rfl
      | value v => rfl
  | _ => rfl

end Behaviours

theorem blind_make : ∀ depth, Spawner.Blind (make depth)
  | 0 => fun _ _ _ _ _ => rfl
  | depth + 1 => by
      intro es sys logic spec hfresh
      have hfirst : spec.first (make depth) (spec.scope (sys.owing es)) logic =
          (spec.first (make depth) (spec.scope sys) logic).map (Scope.owing es) id := by
        unfold ActorSpec.first
        rw [hfresh]
        exact Logic.initialSnapshot_owing es (blind_make depth) (spec.scope sys) _ _
      cases hmade : spec.first (make depth) (spec.scope sys) logic with
      | mk scope result =>
          rw [hmade] at hfirst
          cases result with
          | error e =>
              rw [make_error hmade, make_error hfirst]
              rfl
          | ok snapshot =>
              rw [make_ok hmade, make_ok hfirst]
              exact congrArg (Prod.mk · _) (System.register_owing es _ _)

theorem blind_spawn : Spawner.Blind spawn := fun _ _ _ _ hfresh => blind_make _ _ _ _ _ hfresh

/-! ## Deliveries -/

namespace Delivery

open Statechart.System (modify_owing setMailbox_owing lookup?_owing)

/-- The same delivery with more errors kept before. -/
def owing (errors : List ActorError) (d : Delivery) : Delivery :=
  { d with system := d.system.owing errors }

theorem owing_before (d : Delivery) (frames : List Frame) :
    (d.owing es).before frames = (d.before frames).owing es := rfl

variable (sys : System) (s : Session)

/-! ### Calls -/

theorem flush_owing : flush (sys.owing es) s = (flush sys s).owing es := by
  have henter : (sys.owing es).enter = sys.enter.owing es := rfl
  have hactor : (sys.enter.owing es).actor s = sys.enter.actor s := rfl
  unfold flush
  simp only [henter, hactor, setMailbox_owing]
  split <;> rfl

theorem checkMailbox_owing : checkMailbox (sys.owing es) s = (checkMailbox sys s).owing es := by
  have hactor : (sys.owing es).actor s = sys.actor s := rfl
  have hconfig : (sys.owing es).config = sys.config := rfl
  unfold checkMailbox
  simp only [hactor, hconfig]
  split <;> rfl

theorem send_owing (event : Event) : send (sys.owing es) s event = (send sys s event).owing es := by
  have hactor : (sys.owing es).actor s = sys.actor s := rfl
  have hconfig : ∀ sys : System, (sys.owing es).config = sys.config := fun _ => rfl
  unfold send
  simp only [hactor, hconfig, setMailbox_owing, checkMailbox_owing, flush_owing]
  split
  · rfl
  · split
    · rfl
    · rfl
    · split <;> rfl
    · rfl

theorem start_owing : start (sys.owing es) s = (start sys s).owing es := by
  have hactor : (sys.owing es).actor s = sys.actor s := rfl
  have hnote : ∀ (sys : System) (n : Notice), (sys.owing es).note n = (sys.note n).owing es :=
    fun _ _ => rfl
  unfold start
  simp only [hactor, setMailbox_owing, hnote, flush_owing]
  split <;> rfl

theorem stop_owing : stop (sys.owing es) s = (stop sys s).owing es := by
  have hactor : (sys.owing es).actor? s = sys.actor? s := rfl
  unfold stop System.setSnapshot
  simp only [hactor, setMailbox_owing, modify_owing, flush_owing]
  split
  · rfl
  · split <;> rfl

theorem call_owing (c : Call) : call (sys.owing es) s c = (call sys s c).owing es := by
  cases c with
  | start => exact start_owing es sys s
  | stop => exact stop_owing es sys s
  | send event => exact send_owing es sys s event

/-! ### Processing an event -/

theorem commit_owing (next : Snapshot) (effects : List Effect) (failure : Option ActorError) :
    commit (sys.owing es) s next effects failure = (commit sys s next effects failure).owing es := by
  unfold commit System.setSnapshot
  rw [modify_owing]
  rfl

theorem handleInit_owing : handleInit (sys.owing es) s = (handleInit sys s).owing es := by
  unfold handleInit
  simp only [modify_owing]
  rfl

theorem handleStop_owing : handleStop (sys.owing es) s = (handleStop sys s).owing es := by
  have hstop := Logic.stop_owing es blind_spawn (scopeOf sys (sys.actor s))
    (sys.actor s).snapshot (sys.actor s).logic
  have hscope : scopeOf (sys.owing es) (sys.actor s) = (scopeOf sys (sys.actor s)).owing es := rfl
  have hactor : (sys.owing es).actor s = sys.actor s := rfl
  unfold handleStop
  simp only [hactor, hscope, hstop]
  obtain ⟨scope, result⟩ := (sys.actor s).logic.stop spawn (scopeOf sys (sys.actor s))
    (sys.actor s).snapshot
  cases result with
  | ok next => exact congrArg (doing · _) (modify_owing es scope.system s _)
  | error e => exact congrArg (doing · _) (modify_owing es (scope.system.note _) s _)

theorem handleEvent_owing (event : Event) :
    handleEvent (sys.owing es) s event = (handleEvent sys s event).owing es := by
  have hstep := Logic.transition_owing es blind_spawn (scopeOf sys (sys.actor s))
    (sys.actor s).snapshot event (sys.actor s).logic
  have hscope : scopeOf (sys.owing es) (sys.actor s) = (scopeOf sys (sys.actor s)).owing es := rfl
  have hactor : (sys.owing es).actor s = sys.actor s := rfl
  unfold handleEvent
  simp only [hactor, hscope, hstep]
  split
  · obtain ⟨scope, result⟩ := (sys.actor s).logic.transition spawn (scopeOf sys (sys.actor s))
      (sys.actor s).snapshot event
    cases result with
    | ok next => exact congrArg (before · _) (commit_owing es scope.system s _ _ _)
    | error e => exact congrArg (before · _) (commit_owing es scope.system s _ _ _)
  · rfl

theorem process_owing (event : Event) :
    process (sys.owing es) s event = (process sys s event).owing es := by
  unfold process
  split
  · exact handleInit_owing es sys s
  · split
    · exact handleStop_owing es sys s
    · exact handleEvent_owing es sys s event

theorem launch_owing (snapshot : Snapshot) :
    launch (sys.owing es) s snapshot = (launch sys s snapshot).owing es := by
  have hstart := Logic.start_owing es (scopeOf sys (sys.actor s)) snapshot (sys.actor s).logic
  have hscope : scopeOf (sys.owing es) (sys.actor s) = (scopeOf sys (sys.actor s)).owing es := rfl
  have hactor : (sys.owing es).actor s = sys.actor s := rfl
  unfold launch
  simp only [hactor, hscope, hstart]
  obtain ⟨scope, result⟩ := (sys.actor s).logic.start (scopeOf sys (sys.actor s)) snapshot
  cases result with
  | ok next => exact commit_owing es scope.system s _ _ _
  | error e => exact commit_owing es scope.system s _ _ _

/-! ### Effects -/

theorem deliver_owing (recipient : Destination) (event : Event) :
    deliver (sys.owing es) s recipient event = (deliver sys s recipient event).owing es := by
  unfold deliver
  cases recipient with
  | actor target => exact send_owing es sys target event
  | session target =>
      simp only [lookup?_owing]
      split
      · exact send_owing es sys _ event
      · rfl

theorem enqueueSelf_owing (event : Event) :
    enqueueSelf (sys.owing es) s event = (enqueueSelf sys s event).owing es :=
  setMailbox_owing es sys s _

theorem afterSend_owing (answer : Except ActorError Unit) :
    afterSend (sys.owing es) s answer = (afterSend sys s answer).owing es := by
  have hactor : (sys.owing es).actor s = sys.actor s := rfl
  unfold afterSend
  cases answer with
  | ok u => rfl
  | error e =>
      simp only [hactor]
      split
      · exact System.recordUnhandled_owing es sys e
      · exact enqueueSelf_owing es sys s _

theorem effect_owing (e : Effect) : effect (sys.owing es) s e = (effect sys s e).owing es := by
  cases e with
  | send recipient event delay id =>
      cases delay with
      | none => exact congrArg (before · _) (deliver_owing es sys s recipient event)
      | some ms => rfl
  | start child =>
      have hactor : (sys.owing es).actor s = sys.actor s := rfl
      simp only [effect, hactor]
      split
      · exact start_owing es sys child
      · rfl
  | stop child => exact stop_owing es sys child
  | cancel id => rfl
  | log label value => rfl
  | exec name args run => rfl

/-! ### Winding up, observers and scripts -/

theorem settle_owing (snapshot : Snapshot) (failure : Option ActorError) :
    settle (sys.owing es) s snapshot failure = (settle sys s snapshot failure).owing es := by
  unfold settle
  simp only
  split <;> rfl

theorem failed_owing (snapshot : Snapshot) (failure : Option ActorError) :
    failed (sys.owing es) s snapshot failure = (failed sys s snapshot failure).owing es := by
  have hactor : (sys.owing es).actor s = sys.actor s := rfl
  have hnote : ∀ n : Notice, (sys.owing es).note n = (sys.note n).owing es := fun _ => rfl
  unfold failed
  simp only [hactor, hnote, System.recordUnhandled_owing]
  split
  · split <;> rfl
  · rfl

theorem halt_owing : halt (sys.owing es) s = (halt sys s).owing es :=
  congrArg (doing · _) (setMailbox_owing es sys s _)

theorem retire_owing : retire (sys.owing es) s = (retire sys s).owing es :=
  congrArg (System.note · _)
    (System.unregister_owing es (sys.cancelOwner s) s (sys.actor s).systemId)

theorem finish_owing : finish (sys.owing es) s = (finish sys s).owing es :=
  congrArg (doing · _) (modify_owing es sys s _)

theorem tellParent_owing (event : Event) :
    tellParent (sys.owing es) s event = (tellParent sys s event).owing es := by
  have hactor : (sys.owing es).actor s = sys.actor s := rfl
  have hlookup : (sys.owing es).lookup? = sys.lookup? := funext (lookup?_owing es sys)
  unfold tellParent
  rw [hactor, hlookup]
  split
  · exact send_owing es sys _ event
  · rfl

theorem notifyOne_owing (number : Nat) (o : Observer) (what : Notification) :
    notifyOne (sys.owing es) number o what = (notifyOne sys number o what).owing es := by
  have hseen : seenBy (sys.owing es) number = seenBy sys number := rfl
  unfold notifyOne
  simp only [hseen]
  split <;> cases what <;> rfl

theorem script_owing (owner : Option Session) (body : Script (Except ActionError Unit)) :
    script (sys.owing es) owner body = (script sys owner body).owing es := by
  cases body with
  | done result =>
      cases result with
      | ok u => rfl
      | error e =>
          cases owner with
          | none => rfl
          | some s => exact congrArg done (enqueueSelf_owing es sys s _)
  | report line next => rfl
  | call name request next =>
      have hheld : (sys.owing es).held? name = sys.held? name := rfl
      unfold script
      simp only [hheld]
      split
      · rfl
      · exact congrArg (before · _) (call_owing es sys _ request)

theorem fireTimer_owing (timer : Timer) :
    fireTimer (sys.owing es) timer = (fireTimer sys timer).owing es := by
  unfold fireTimer
  cases timer.target with
  | actor s => exact congrArg (before · _) (send_owing es sys s timer.event)
  | session s =>
      simp only [lookup?_owing]
      split
      · exact congrArg (before · _) (send_owing es sys _ timer.event)
      · rfl

theorem fire_owing (time : Nat) (moving : Bool) :
    fire (sys.owing es) time moving = (fire sys time moving).owing es := by
  cases hpop : sys.scheduler.popDue? time with
  | none =>
      have hpop' : (sys.owing es).scheduler.popDue? time = none := hpop
      rw [fire_none hpop, fire_none hpop']
      rfl
  | some popped =>
      obtain ⟨timer, scheduler⟩ := popped
      have hpop' : (sys.owing es).scheduler.popDue? time = some (timer, scheduler) := hpop
      rw [fire_some hpop, fire_some hpop', ← owing_before, ← fireTimer_owing]
      cases moving <;> rfl

theorem afterFire_owing (answer : Except ActorError Unit) :
    afterFire (sys.owing es) s answer = (afterFire sys s answer).owing es := by
  cases answer <;> rfl

/-- No frame looks at the errors that are kept, but for the end of the outermost delivery. -/
theorem frame_owing (answer : Except ActorError Unit) {f : Frame}
    (hf : f.isLeave = true → 1 < sys.depth) :
    frame (sys.owing es) answer f = (frame sys answer f).owing es := by
  have hactor : ∀ s, (sys.owing es).actor s = sys.actor s := fun _ => rfl
  cases f with
  | drain s =>
      unfold frame
      simp only [hactor, setMailbox_owing]
      split
      · rfl
      · exact congrArg (before · _) (process_owing es _ s _)
  | effects s effects =>
      cases effects with
      | nil => rfl
      | cons e rest => exact congrArg (before · _) (effect_owing es sys s e)
  | delivered s => exact congrArg done (afterSend_owing es sys s answer)
  | launch s snapshot => exact launch_owing es sys s snapshot
  | notify observers what =>
      cases observers with
      | nil => rfl
      | cons o rest => exact congrArg (before · _) (notifyOne_owing es sys o.1 o.2 what)
  | settle s snapshot failure => exact settle_owing es sys s snapshot failure
  | failed s snapshot failure => exact failed_owing es sys s snapshot failure
  | halt s => exact halt_owing es sys s
  | stopAll sessions =>
      cases sessions with
      | nil => rfl
      | cons s rest => exact congrArg (before · _) (stop_owing es sys s)
  | retire s => exact congrArg done (retire_owing es sys s)
  | finish s => exact finish_owing es sys s
  | tellParent s event => exact tellParent_owing es sys s event
  | script owner body => exact script_owing es sys owner body
  | resume owner target next => rfl
  | keep sessions => rfl
  | leave =>
      have hdepth : sys.depth - 1 ≠ 0 := Nat.sub_ne_zero_of_lt (hf rfl)
      have hdepth' : (sys.owing es).depth - 1 ≠ 0 := hdepth
      unfold frame System.leave
      simp only [hdepth, hdepth', if_false]
      rfl
  | reply result => rfl
  | fire time moving => exact fire_owing es sys time moving
  | fired s => exact congrArg done (afterFire_owing es sys s answer)
  | arrive time => rfl

/-- The same for a step of a delivery. -/
theorem step_owing (d : Delivery)
    (hd : ∀ f, d.frames.head? = some f → f.isLeave = true → 1 < d.system.depth) :
    (d.owing es).step = d.step.owing es := by
  obtain ⟨sys, frames, answer⟩ := d
  cases frames with
  | nil => rfl
  | cons top rest =>
      exact congrArg (before · rest)
        (frame_owing es { sys with pins := pins (top :: rest) } answer (hd top rfl))

end Delivery

end Statechart
