import Statechart.Proofs.Runs
import Statechart.Proofs.Performing

/-!
# What a step asks for about a timer

The effects of a step may set and cancel the timer of an id several times over. What counts in the
end is the last of them (`Effect.standing`). When a machine sets the timer where one state is
entered, cancels it where that state is left, and does nothing else about it (`Machine.Tends`), the
last of them tells whether the state is active after the step (`Machine.transition_minds`).
-/

namespace Statechart

/-! ## Effects about a timer -/

namespace Effect

/-- What an effect makes of the timer of an id: it sets it, to some time from then on, or cancels
it. -/
def about? (id : String) : Effect → Option (Option Nat)
  | .send _ _ (some ms) (some own) => if own = id then some (some ms) else none
  | .cancel own => if own = id then some none else none
  | _ => none

/-- What the last effect makes of the timer that makes anything of it. -/
def standing (id : String) (effects : List Effect) : Option (Option Nat) :=
  (effects.filterMap (about? id)).getLast?

variable {id : String} {e : Effect} {effects : List Effect}

@[simp] theorem standing_nil : standing id [] = none := rfl

theorem standing_append (xs ys : List Effect) :
    standing id (xs ++ ys) = (standing id ys).or (standing id xs) := by
  rw [standing, List.filterMap_append, List.getLast?_append]
  rfl

theorem standing_singleton (e : Effect) : standing id [e] = e.about? id := by
  unfold standing
  cases h : e.about? id <;> simp [h]

theorem standing_cons (e : Effect) (effects : List Effect) :
    standing id (e :: effects) = (standing id effects).or (e.about? id) := by
  rw [← standing_singleton]
  exact standing_append [e] effects

end Effect

/-! ## Actions about a timer -/

/-- An action, or one that stands in for it, uses an id for what can be cancelled by it. -/
inductive Implementations.Uses (implementations : Implementations Logic) (id : String) :
    Action Logic → Prop
  | raise (expr : EventExpr) (delay : Option Delay) :
      Uses implementations id (.raise expr delay (some id))
  | sendTo (target : SendTarget) (expr : EventExpr) (delay : Option Delay) :
      Uses implementations id (.sendTo target expr delay (some id))
  | cancel : Uses implementations id (.cancel id)
  | named {name : String} {params : Json} {found : Action Logic}
      (hfound : implementations.actions name = some found) (h : Uses implementations id found) :
      Uses implementations id (.named name params)
  | choose {branches : List (Branch (Action Logic))} {branch : Branch (Action Logic)}
      {action : Action Logic} (hbranch : branch ∈ branches) (haction : action ∈ branch.actions)
      (h : Uses implementations id action) : Uses implementations id (.choose branches)
  | enqueue {f : ActionArgs → List (Action Logic)} {args : ActionArgs} {action : Action Logic}
      (haction : action ∈ f args) (h : Uses implementations id action) :
      Uses implementations id (.enqueue f)

section Uses

variable {implementations : Implementations Logic} {id : String}

theorem Implementations.uses_raise {expr : EventExpr} {delay : Option Delay} {own : Option String}
    (h : implementations.Uses id (.raise expr delay own)) : own = some id := by
  cases h
  rfl

theorem Implementations.uses_cancel {own : String} (h : implementations.Uses id (.cancel own)) :
    own = id := by
  cases h
  rfl

end Uses

namespace Machine

/-- The action that sets the timer of an id after a delay. -/
def Starts (id : String) (delay : Delay) (action : Action Logic) : Prop :=
  ∃ event, action = .raise (.fixed event) (some delay) (some id)

/-- The machine sets the timer of an id where one state is entered and cancels it where that state
is left, if there is such a state, and does nothing else about it. -/
structure Tends (m : Machine) (id : String) (holder : Option Nat) (delay : Delay) : Prop where
  entry : ∀ st, ∀ action ∈ (m.definition.node st).entry, m.implementations.Uses id action →
    holder = some st ∧ Starts id delay action
  exit : ∀ st, ∀ action ∈ (m.definition.node st).exit, m.implementations.Uses id action →
    holder = some st ∧ action = .cancel id
  transitions : ∀ t, ∀ action ∈ (m.definition.transition t).actions,
    ¬ m.implementations.Uses id action
  starts : ∀ st, holder = some st → ∃ action ∈ (m.definition.node st).entry, Starts id delay action
  cancels : ∀ st, holder = some st → .cancel id ∈ (m.definition.node st).exit

/-- How actors are made does not matter. -/
theorem Tends.respawn {m : Machine} {id : String} {holder : Option Nat} {delay : Delay}
    (h : m.Tends id holder delay) (make : Spawner) :
    Machine.Tends { m with spawn := make } id holder delay :=
  ⟨h.entry, h.exit, h.transitions, h.starts, h.cancels⟩

/-- What an action of some kind can make of a timer. -/
def Makes (delay : Delay) (v : Option Nat) : Prop :=
  ∃ ms, v = some ms ∧ ∀ n, delay = .ms n → ms = n

end Machine

namespace Work

/-- What the step has last asked for about the timer of an id. -/
def standing (w : Work) (id : String) : Option (Option Nat) := Effect.standing id w.scope.effects

/-- Whether a state has been entered in the step. -/
def HasEntered (w : Work) (st : Nat) : Prop := .entered st ∈ w.journal

/-- No state is entered or left. About the timer of an id nothing is asked for, or something of a
kind. -/
structure Stands (id : String) (kind : Option Nat → Prop) (w w' : Work) : Prop where
  status : w'.snapshot.status = w.snapshot.status
  config : w'.snapshot.config = w.snapshot.config
  entered : ∀ st, w'.HasEntered st ↔ w.HasEntered st
  standing : w'.standing id = w.standing id ∨ ∃ v, kind v ∧ w'.standing id = some v

variable {id : String} {kind : Option Nat → Prop} {w w' w'' : Work}

theorem Stands.refl (w : Work) : Stands id kind w w := ⟨rfl, rfl, fun _ => .rfl, .inl rfl⟩

theorem Stands.trans (h : Stands id kind w w') (h' : Stands id kind w' w'') :
    Stands id kind w w'' where
  status := h'.status.trans h.status
  config := h'.config.trans h.config
  entered st := (h'.entered st).trans (h.entered st)
  standing := by
    rcases h'.standing with hsame | hmade
    · rw [hsame]
      exact h.standing
    · exact .inr hmade

end Work

namespace Machine

open StepM Work

variable {m : Machine} {id : String} {kind : Option Nat → Prop} {w w' : Work} {event : Event}

theorem Queues.entered (h : w.Queues w') (st : Nat) : w'.HasEntered st ↔ w.HasEntered st := by
  unfold HasEntered
  cases h with
  | still _ hjournal => rw [hjournal]
  | raised _ _ hjournal => simp [hjournal]
  | failed _ _ hjournal => simp [hjournal]

/-- An effect that, if it is about the timer of an id, is of a kind. -/
def OfKind (id : String) (kind : Option Nat → Prop) (e : Effect) : Prop :=
  ∀ v, e.about? id = some v → kind v

theorem Performs.stands (h : Performs (OfKind id kind) w w') : Stands id kind w w' where
  status := h.status
  config := h.config
  entered := Queues.entered h.queues
  standing := by
    unfold Work.standing
    rcases h.asks with hsame | ⟨e, he, heffects⟩
    · rw [hsame]
      exact .inl rfl
    · rw [heffects, Effect.standing_append, Effect.standing_singleton]
      cases habout : e.about? id with
      | none => exact .inl rfl
      | some v => exact .inr ⟨v, he v habout, rfl⟩

theorem stands_of_runs {α : Type} {x : StepM α} {a : α} (hx : Runs (Stands id kind) x)
    (h : x w = .ok a w') : Stands id kind w w' := by
  have hafter := hx w
  rw [after_of_ok h] at hafter
  generalize w' = w'' at hafter
  induction hafter with
  | refl => exact .refl w
  | tail _ hstep ih => exact ih.trans hstep

/-- Actions that use an id as they may make of its timer what they may. -/
theorem confines_uses (m : Machine) (id : String) {special : Action Logic → Prop}
    {kind : Option Nat → Prop}
    (hspecial : ∀ action, special action → (∃ delay, Starts id delay action ∧
      ∀ v, Makes delay v → kind v) ∨ action = .cancel id ∧ kind none) :
    m.Confines (fun action => m.implementations.Uses id action → special action)
      (OfKind id kind) where
  aside e he v hv := by cases e <;> first | exact he.elim | cases hv
  named h hfound huses := by
    rcases hspecial _ (h (.named hfound huses)) with ⟨_, ⟨_, hno⟩, -⟩ | ⟨hno, -⟩ <;> cases hno
  -- only a raise and a cancel may use the id; what a delayed send asks for is ruled out
  raise {expr delay own} h target event ms hms v hv := by
    cases own with
    | none => cases hv
    | some own =>
        obtain ⟨rfl, hmade⟩ := Option.ite_none_right_eq_some.mp hv
        cases hmade
        rcases hspecial _ (h (.raise _ _)) with ⟨_, ⟨_, hstarts⟩, hmakes⟩ | ⟨hno, -⟩
        · cases hstarts
          exact hmakes _ ⟨ms, rfl, hms⟩
        · cases hno
  sendTo {target expr delay own} h recipient event ms _ v hv := by
    cases own with
    | none =>
        cases ms <;> cases hv
    | some own =>
        cases ms with
        | none => cases hv
        | some ms =>
            obtain ⟨rfl, -⟩ := Option.ite_none_right_eq_some.mp hv
            rcases hspecial _ (h (.sendTo _ _ _)) with ⟨_, ⟨_, hno⟩, -⟩ | ⟨hno, -⟩ <;> cases hno
  cancel {own} h v hv := by
    obtain ⟨rfl, hmade⟩ := Option.ite_none_right_eq_some.mp hv
    cases hmade
    rcases hspecial _ (h .cancel) with ⟨_, ⟨_, hno⟩, -⟩ | ⟨-, hkind⟩
    · cases hno
    · exact hkind
  choose h branch hbranch action haction huses := by
    rcases hspecial _ (h (.choose hbranch haction huses)) with ⟨_, ⟨_, hno⟩, -⟩ | ⟨hno, -⟩ <;>
      cases hno
  enqueue h args action haction huses := by
    rcases hspecial _ (h (.enqueue haction huses)) with ⟨_, ⟨_, hno⟩, -⟩ | ⟨hno, -⟩ <;> cases hno

/-! ## Lists of actions -/

/-- To carry out two lists is to carry out one after the other. -/
theorem performAll_append : ∀ {fuel : Nat} (tasks more : List Task) {w w' : Work},
    m.performAll event fuel (tasks ++ more) w = .ok () w' → ∃ fuel₁ w₁ fuel₂,
      m.performAll event fuel₁ tasks w = .ok () w₁ ∧ m.performAll event fuel₂ more w₁ = .ok () w'
  | fuel, [], more, w, w', h => ⟨0, w, fuel, by rw [performAll]; rfl, h⟩
  | 0, task :: rest, more, w, w', h => by
      obtain ⟨_, _, -, h⟩ := bind_eq_ok h
      cases h
  | fuel + 1, task :: rest, more, w, w', h => by
      obtain ⟨instead, w₁, hperform, h⟩ := bind_eq_ok h
      have h : m.performAll event fuel (instead ++ (rest ++ more)) w₁ = .ok () w' := h
      rw [← List.append_assoc] at h
      obtain ⟨fuel₁, w₂, fuel₂, hfirst, hmore⟩ := performAll_append _ _ h
      refine ⟨fuel₁ + 1, w₂, fuel₂, ?_, hmore⟩
      show EStateM.bind (m.perform event task) _ w = _
      rw [EStateM.bind, hperform]
      exact hfirst

/-- A list of actions that use an id as they may. -/
theorem stands_performAll {fuel : Nat} (actions : List (Action Logic))
    {special : Action Logic → Prop}
    (hspecial : ∀ action, special action → (∃ delay, Starts id delay action ∧
      ∀ v, Makes delay v → kind v) ∨ action = .cancel id ∧ kind none)
    (hactions : ∀ action ∈ actions, m.implementations.Uses id action → special action)
    (h : m.performAll event fuel (actions.map fun action => { action, params := .null }) w =
      .ok () w') : Stands id kind w w' := by
  refine stands_of_runs ((performs_performAll (confines_uses m id hspecial) fun t ht => ?_).mono
    fun _ _ => Performs.stands) h
  obtain ⟨action, ha, rfl⟩ := List.mem_map.mp ht
  exact hactions action ha

/-- Among the actions of a list there is one that settles what becomes of the timer. -/
theorem execute_split {actions : List (Action Logic)} {special : Action Logic → Prop}
    (hspecial : ∀ action, special action → (∃ delay, Starts id delay action ∧
      ∀ v, Makes delay v → kind v) ∨ action = .cancel id ∧ kind none)
    (hactions : ∀ action ∈ actions, m.implementations.Uses id action → special action)
    {action : Action Logic} (haction : action ∈ actions)
    (h : m.execute actions event w = .ok () w') : ∃ fuel w₁ w₂, Stands id kind w w₁ ∧
      m.performAll event fuel [{ action, params := .null }] w₁ = .ok () w₂ ∧
        Stands id kind w₂ w' := by
  obtain ⟨before, after, rfl⟩ := List.append_of_mem haction
  -- what stands before and after that action makes of the timer what the list may
  rw [execute, List.map_append, List.map_cons] at h
  obtain ⟨fuel₁, w₁, fuel₂, hbefore, h⟩ := performAll_append _ _ h
  obtain ⟨fuel₃, w₂, fuel₄, hself, hafter⟩ := performAll_append [_] _ h
  exact ⟨fuel₃, w₁, w₂,
    stands_performAll _ hspecial (fun a ha => hactions a (List.mem_append_left _ ha)) hbefore,
    hself, stands_performAll _ hspecial
      (fun a ha => hactions a (List.mem_append_right _ (List.mem_cons_of_mem _ ha))) hafter⟩

/-- To carry out a single action that nothing stands in for. -/
theorem performAll_singleton {fuel : Nat} {task : Task} {x : StepM Unit}
    (hperform : m.perform event task = do x; return [])
    (h : m.performAll event fuel [task] w = .ok () w') : x w = .ok () w' := by
  cases fuel with
  | zero =>
      obtain ⟨_, _, -, h⟩ := bind_eq_ok h
      cases h
  | succ fuel =>
      obtain ⟨instead, w₁, hself, h⟩ := bind_eq_ok h
      rw [hperform] at hself
      obtain ⟨_, w₂, hx, hnil⟩ := bind_eq_ok hself
      cases hnil
      rw [List.nil_append, performAll] at h
      cases h
      exact hx

theorem standing_cancel {fuel : Nat}
    (h : m.performAll event fuel [{ action := .cancel id, params := .null }] w = .ok () w') :
    w'.standing id = some none := by
  have hperform : m.perform event { action := .cancel id, params := .null } = do
      (do pushEffect (.cancel id); recordAction "cancel" (.obj [("id", .str id)])); return [] := rfl
  cases performAll_singleton hperform h
  show Effect.standing id (w.scope.effects ++ [.cancel id]) = some none
  rw [Effect.standing_append, Effect.standing_singleton, Effect.about?, if_pos rfl]
  rfl

/-- The timer is set, unless it is to run for a time that nothing is known of. -/
theorem standing_starts {fuel : Nat} {delay : Delay} {action : Action Logic}
    (haction : Starts id delay action)
    (h : m.performAll event fuel [{ action, params := .null }] w = .ok () w') :
    (∃ v, Makes delay v ∧ w'.standing id = some v) ∨ ∀ n, delay ≠ .ms n := by
  obtain ⟨sent, rfl⟩ := haction
  cases delay with
  | named name => exact .inr nofun
  | ms n =>
      have hperform : m.perform event
          { action := .raise (.fixed sent) (some (.ms n)) (some id), params := .null } = do
            m.raiseSelf (.fixed sent) (some (.ms n)) (some id) event .null; return [] := rfl
      cases performAll_singleton hperform h
      refine .inl ⟨some n, ⟨n, rfl, fun _ heq => Delay.ms.inj heq⟩, ?_⟩
      show Effect.standing id (w.scope.effects ++ [.send _ _ (some n) (some id)]) = some (some n)
      rw [Effect.standing_append, Effect.standing_singleton, Effect.about?, if_pos rfl]
      rfl

/-- Where nothing uses the id, nothing is made of its timer. -/
theorem stands_execute {actions : List (Action Logic)}
    (hactions : ∀ action ∈ actions, ¬ m.implementations.Uses id action)
    (h : m.execute actions event w = .ok () w') : Stands id (fun _ => False) w w' :=
  stands_performAll _ (fun _ hno => hno.elim) (fun action ha huses => hactions action ha huses) h

/-! ## The actions of a state -/

section Tends

variable {holder : Option Nat} {delay : Delay} {st : Nat} (ht : m.Tends id holder delay)

include ht

theorem Tends.leaves (hst : holder = some st)
    (h : m.execute (m.definition.node st).exit event w = .ok () w') :
    Stands id (· = none) w w' ∧ w'.standing id = some none := by
  have hspecial : ∀ action, action = .cancel id → (∃ delay, Starts id delay action ∧
      ∀ v, Makes delay v → v = none) ∨ action = .cancel id ∧ (none : Option Nat) = none :=
    fun _ haction => .inr ⟨haction, rfl⟩
  obtain ⟨fuel, w₁, w₂, hbefore, hself, hafter⟩ := execute_split hspecial
    (fun action ha huses => (ht.exit st action ha huses).2) (ht.cancels st hst) h
  have hself' := stands_performAll [.cancel id] hspecial
    (fun action ha _ => List.mem_singleton.mp ha) hself
  refine ⟨(hbefore.trans hself').trans hafter, ?_⟩
  -- the actions after the cancel can at most cancel once more
  rcases hafter.standing with hsame | ⟨v, rfl, hnone⟩
  · exact hsame.trans (standing_cancel hself)
  · exact hnone

theorem Tends.enters (hst : holder = some st)
    (h : m.execute (m.definition.node st).entry event w = .ok () w') :
    Stands id (Makes delay) w w' ∧
      ((∃ v, Makes delay v ∧ w'.standing id = some v) ∨ ∀ n, delay ≠ .ms n) := by
  have hspecial : ∀ action, Starts id delay action → (∃ delay', Starts id delay' action ∧
      ∀ v, Makes delay' v → Makes delay v) ∨ action = .cancel id ∧ Makes delay none :=
    fun _ haction => .inl ⟨delay, haction, fun _ hv => hv⟩
  obtain ⟨action, haction, hstarts⟩ := ht.starts st hst
  obtain ⟨fuel, w₁, w₂, hbefore, hself, hafter⟩ := execute_split hspecial
    (fun action ha huses => (ht.entry st action ha huses).2) haction h
  have hself' := stands_performAll [action] hspecial
    (fun a ha _ => List.mem_singleton.mp ha ▸ hstarts) hself
  refine ⟨(hbefore.trans hself').trans hafter, ?_⟩
  rcases standing_starts hstarts hself with ⟨v, hv, hset⟩ | hnamed
  · rcases hafter.standing with hsame | hmade
    · exact .inl ⟨v, hv, hsame.trans hset⟩
    · exact .inl hmade
  · exact .inr hnamed

end Tends

end Machine

/-! ## What is kept -/

/-- What a step has asked for about the timer of an id agrees with whether the state is active. If
nothing has been asked for, the state has been neither left nor entered. -/
structure Work.Minds (id : String) (holder : Option Nat) (delay : Delay) (old : Configuration)
    (w : Work) : Prop where
  stays : w.standing id = none → ∀ st, holder = some st → st ∈ old → st ∈ w.snapshot.config
  active : ∀ ms, w.standing id = some (some ms) → ∃ st, holder = some st ∧ st ∈ w.snapshot.config
  set : ∀ st n, holder = some st → delay = .ms n → st ∈ w.snapshot.config →
    w.standing id = some (some n) ∨ w.standing id = none ∧ st ∈ old ∧ ¬ w.HasEntered st

namespace Machine

open StepM Work

variable {m : Machine} {id : String} {holder : Option Nat} {delay : Delay} {old : Configuration}
  {w w' : Work} {event : Event} {ts : List (Transition Logic)} {states raised : List Nat}

/-- What makes nothing of the timer, leaves the state where it is and does not enter it. -/
theorem Minds.congr (hw : w.Minds id holder delay old) (hstanding : w'.standing id = w.standing id)
    (hstate : ∀ st, holder = some st → (st ∈ w'.snapshot.config ↔ st ∈ w.snapshot.config) ∧
      (w'.HasEntered st ↔ w.HasEntered st)) : w'.Minds id holder delay old where
  stays hnone st hst hold := (hstate st hst).1.mpr (hw.stays (hstanding ▸ hnone) st hst hold)
  active ms hset := by
    obtain ⟨st, hst, hactive⟩ := hw.active ms (hstanding ▸ hset)
    exact ⟨st, hst, (hstate st hst).1.mpr hactive⟩
  set st n hst hdelay hactive := by
    rw [hstanding, (hstate st hst).2]
    exact hw.set st n hst hdelay ((hstate st hst).1.mp hactive)

/-- At the beginning of a step nothing has been asked for. -/
theorem minds_begin (hscope : w.scope.effects = []) (hjournal : w.journal = [])
    (hconfig : w.snapshot.config = old) : w.Minds id holder delay old := by
  subst hconfig
  have hnone : w.standing id = none := by rw [Work.standing, hscope]; rfl
  refine ⟨fun _ _ _ hst => hst, fun ms hset => ?_, fun st n _ _ hst => .inr ⟨hnone, hst, ?_⟩⟩
  · cases hnone.symm.trans hset
  · rw [HasEntered, hjournal]
    exact List.not_mem_nil

theorem Minds.stands (hw : w.Minds id holder delay old) (h : Stands id (fun _ => False) w w') :
    w'.Minds id holder delay old := by
  refine Minds.congr hw ?_ fun st _ => ⟨by rw [h.config], h.entered st⟩
  rcases h.standing with hsame | ⟨_, hno, -⟩
  · exact hsame
  · exact hno.elim

/-- What the entry of the state makes of its timer. -/
theorem minds_entered {state : Nat} (hst : holder = some state)
    (h : Stands id (Makes delay)
      { w with snapshot := { w.snapshot with config := w.snapshot.config.insert state } } w')
    (hmade : (∃ v, Makes delay v ∧ w'.standing id = some v) ∨ ∀ n, delay ≠ .ms n) :
    Work.Minds id holder delay old { w' with journal := .entered state :: w'.journal } := by
  have hthere : ∀ st, holder = some st → st ∈ w'.snapshot.config := by
    intro st hst'
    rw [hst] at hst'
    cases hst'
    rw [h.config]
    exact (NodeSet.mem_insert _ _ _).mpr (.inl rfl)
  refine ⟨fun _ st hst' _ => hthere st hst', fun _ _ => ⟨state, hst, hthere state hst⟩,
    fun st n _ hdelay _ => .inl ?_⟩
  rcases hmade with ⟨v, ⟨ms, rfl, hms⟩, hset⟩ | hnamed
  · rw [← hms n hdelay]
    exact hset
  · exact absurd hdelay (hnamed n)

theorem stands_completeAround {raised : List Nat} {final : Nat} :
    Runs (Stands id (fun _ => False)) (m.completeAround raised final) :=
  completing_completeAround (fun _ _ => ⟨rfl, rfl, fun _ => by simp [HasEntered], .inl rfl⟩)
    fun _ _ => ⟨rfl, rfl, fun _ => by simp [HasEntered], .inl rfl⟩

/-- A machine that is done stays so while its exit actions are carried out. -/
theorem done_runExits {states : List Nat} (hdone : w.snapshot.status = .done)
    (h : m.runExits event states w = .ok () w') : w'.snapshot.status = .done := by
  have hruns : Runs Records (m.runExits event states) := records_runExits
  have hafter := (hruns.runsFrom (p := fun w => w.snapshot.status = .done)
    (fun _ _ h hw => h.status.elim (fun hsame => hsame.trans hw) fun hdone => hdone) w hdone).2
  rwa [after_of_ok h] at hafter

theorem runTransitions_minds
    (hts : ∀ t ∈ ts, ∀ action ∈ t.actions, ¬ m.implementations.Uses id action)
    (hw : w.Minds id holder delay old) (h : m.runTransitions event ts w = .ok () w') :
    w'.Minds id holder delay old ∧ w'.snapshot.status = w.snapshot.status := by
  induction ts generalizing w with
  | nil =>
      cases h
      exact ⟨hw, rfl⟩
  | cons t rest ih =>
      obtain ⟨w₁, hactions, hrest⟩ := runTransitions_cons h
      have hstands := stands_execute (hts t List.mem_cons_self) hactions
      have hw₁ : w₁.Minds id holder delay old := Minds.stands hw hstands
      have hw₂ : Work.Minds id holder delay old
          { w₁ with journal := .taken t.index :: w₁.journal } :=
        Minds.congr hw₁ rfl fun st _ => ⟨.rfl, by simp [HasEntered]⟩
      obtain ⟨hw', hstatus⟩ := ih (fun t' ht' => hts t' (List.mem_cons_of_mem _ ht')) hw₂ hrest
      exact ⟨hw', hstatus.trans hstands.status⟩

section Tends

variable (ht : m.Tends id holder delay)

include ht

theorem exitState_minds {state : Nat} (hw : w.Minds id holder delay old)
    (h : m.exitState event state w = .ok () w') :
    w'.Minds id holder delay old ∧ w'.snapshot.status = w.snapshot.status := by
  obtain ⟨w₁, hexit, rfl⟩ := exitState_parts h
  by_cases hst : holder = some state
  · obtain ⟨hstands, hnone⟩ := ht.leaves hst hexit
    have hgone : ∀ st, holder = some st → st ∉ w₁.snapshot.config.erase state := by
      intro st hst' hmem
      rw [hst] at hst'
      cases hst'
      exact ((NodeSet.mem_erase _ _ _).mp hmem).1 rfl
    refine ⟨⟨fun hno => ?_, fun ms hset => ?_, fun st n hst' _ hactive => ?_⟩, hstands.status⟩
    · cases hnone.symm.trans hno
    · cases hnone.symm.trans hset
    · exact absurd hactive (hgone st hst')
  · have hstands : Stands id (fun _ => False) w w₁ := stands_execute (fun action ha huses =>
      hst (ht.exit state action ha huses).1) hexit
    refine ⟨Minds.congr (Minds.stands hw hstands) rfl fun st hst' => ⟨?_, ?_⟩, hstands.status⟩
    · have hne : st ≠ state := fun heq => hst (heq ▸ hst')
      exact (NodeSet.mem_erase _ _ _).trans (and_iff_right hne)
    · simp [HasEntered]

theorem exitStates_minds (hw : w.Minds id holder delay old)
    (h : m.exitStates event states w = .ok () w') :
    w'.Minds id holder delay old ∧ w'.snapshot.status = w.snapshot.status := by
  induction states generalizing w with
  | nil =>
      cases h
      exact ⟨hw, rfl⟩
  | cons state rest ih =>
      obtain ⟨_, w₁, hstate, hrest⟩ := bind_eq_ok h
      obtain ⟨hw₁, hstatus⟩ := exitState_minds ht hw hstate
      obtain ⟨hw', hstatus'⟩ := ih hw₁ hrest
      exact ⟨hw', hstatus'.trans hstatus⟩

theorem enterStates_minds (hw : w.Minds id holder delay old)
    (h : m.enterStates event raised states w = .ok () w') :
    w'.Minds id holder delay old ∧ w'.snapshot.status = w.snapshot.status := by
  induction states generalizing w raised with
  | nil =>
      cases h
      exact ⟨hw, rfl⟩
  | cons state rest ih =>
      obtain ⟨w₁, raised', w₂, hentry, haround, hrest⟩ := enterStates_cons h
      -- the entry actions run while the state is in the configuration and not yet in the journal
      obtain ⟨hentered, hstatus⟩ : Work.Minds id holder delay old
          { w₁ with journal := .entered state :: w₁.journal } ∧
            w₁.snapshot.status = w.snapshot.status := by
        by_cases hst : holder = some state
        · obtain ⟨hstands, hmade⟩ := ht.enters hst hentry
          exact ⟨minds_entered hst hstands hmade, hstands.status⟩
        · have hstands := stands_execute (fun action ha huses =>
            hst (ht.entry state action ha huses).1) hentry
          have hother : ∀ st, holder = some st → st ≠ state := fun st hst' heq => hst (heq ▸ hst')
          refine ⟨?_, hstands.status⟩
          have hw₀ : Work.Minds id holder delay old { w with
              snapshot := { w.snapshot with config := w.snapshot.config.insert state } } :=
            Minds.congr hw rfl fun st hst' =>
              ⟨(NodeSet.mem_insert _ _ _).trans (or_iff_right (hother st hst')), .rfl⟩
          exact Minds.congr (Minds.stands hw₀ hstands) rfl fun st hst' =>
            ⟨.rfl, by simp [HasEntered, hother st hst']⟩
      -- a final state raises events around it, which asks for nothing
      have hstands : Stands id (fun _ => False)
          { w₁ with journal := .entered state :: w₁.journal } w₂ := by
        rcases haround with ⟨-, haround⟩ | ⟨-, -, rfl⟩
        · exact stands_of_runs stands_completeAround haround
        · exact .refl _
      obtain ⟨hw', hstatus'⟩ := ih (Minds.stands hentered hstands) hrest
      exact ⟨hw', hstatus'.trans (hstands.status.trans hstatus)⟩

theorem enter_minds {entering : List Nat} (hw : w.Minds id holder delay old)
    (h : m.enter event entering w = .ok () w') (hactive : w'.snapshot.status = .active) :
    w'.Minds id holder delay old := by
  obtain ⟨w₁, hstates, ⟨-, hexits⟩ | ⟨-, rfl⟩⟩ := enter_parts h
  · -- a machine that is complete is not active any more, whatever its exits ask for
    cases hactive.symm.trans (done_runExits rfl hexits)
  · exact (enterStates_minds ht hw hstates).1

theorem microstep_minds {ts : List Nat} (hw : w.Minds id holder delay old)
    (h : m.microstep ts event w = .ok () w') (hactive : w'.snapshot.status = .active) :
    w'.Minds id holder delay old := by
  rcases microstep_parts h with ⟨-, rfl⟩ | ⟨w₁, w₂, hexit, hrun, henter⟩
  · exact hw
  · have hbegun : Work.Minds id holder delay old { w with
        snapshot := { w.snapshot with
          history := m.historyAfter w.snapshot (m.definition.permitted ts) }
        journal := .microstep ((m.definition.permitted ts).map Transition.index) :: w.journal } :=
      Minds.congr hw rfl fun st _ => ⟨.rfl, by simp [HasEntered]⟩
    obtain ⟨hw₁, -⟩ := exitStates_minds ht hbegun hexit
    refine enter_minds ht (runTransitions_minds (fun t hmem => ?_) hw₁ hrun).1 henter hactive
    obtain ⟨i, -, rfl⟩ := List.mem_map.mp (List.mem_filter.mp hmem).1
    exact ht.transitions i

theorem handle_minds (hw : w.Minds id holder delay old) (h : m.handle event w = .ok () w')
    (hactive : w'.snapshot.status = .active) : w'.Minds id holder delay old := by
  have hmarked : ∀ ts, Work.Minds id holder delay old
      { w with journal := .handled event ts :: w.journal } :=
    fun ts => Minds.congr hw rfl fun st _ => ⟨.rfl, by simp [HasEntered]⟩
  obtain ⟨ts, -, ⟨-, -, rfl⟩ | ⟨-, -, rfl⟩ | ⟨-, hstep⟩⟩ := handle_ok h
  · cases hactive
  · exact hmarked []
  · exact microstep_minds ht (hmarked ts) hstep hactive

/-- A macrostep that leaves the machine active asks for what agrees with the states it leads to. -/
theorem settle_minds {fuel : Nat} {pending : Option Event} {last : Event}
    (hw : w.snapshot.status = .active → w.Minds id holder delay old)
    (h : m.settle fuel pending last w = .ok () w') (hactive : w'.snapshot.status = .active) :
    w'.Minds id holder delay old := by
  induction fuel generalizing pending last w with
  | zero =>
      obtain ⟨_, _, -, h⟩ := bind_eq_ok h
      cases h
  | succ fuel ih =>
      -- A round goes on from an active machine only, and the next one does so too.
      by_cases hstatus : w.snapshot.status = .active
      · have hw := hw hstatus
        rcases settle_ok h with ⟨rfl, -⟩ | ⟨ts, w₁, -, hstep, h⟩ | ⟨next, rest, w₁, -, hhandle, h⟩ |
          ⟨external, w₁, w₂, -, -, hrelease, hhandle, h⟩
        · exact hw
        · refine ih (fun hactive => microstep_minds ht ?_ hstep hactive) h
          exact Minds.congr hw rfl fun st _ => ⟨.rfl, by simp [HasEntered]⟩
        · refine ih (fun hactive => handle_minds ht ?_ hhandle hactive) h
          exact Minds.congr hw rfl fun st _ => ⟨.rfl, .rfl⟩
        · obtain ⟨children, rfl⟩ := releaseCompleted_ok hrelease
          refine ih (fun hactive => handle_minds ht ?_ hhandle hactive) h
          exact Minds.congr hw rfl fun st _ => ⟨.rfl, .rfl⟩
      · obtain ⟨_, _, hget, h⟩ := bind_eq_ok h
        cases hget
        rw [if_pos hstatus] at h
        cases h
        exact absurd hactive hstatus

/-! ## Steps -/

/-- A machine that takes an event asks for what agrees with the states that it then is in. -/
theorem transition_minds {scope scope' : Scope} {s next : MachineSnapshot}
    (hscope : scope.effects = []) (hold : s.status = .active)
    (h : m.transition scope s event = (scope', .ok next)) (hactive : next.status = .active) :
    ∃ w, m.transitionRun scope s event = .ok () w ∧ scope'.effects = w.scope.effects ∧
      next.config = w.snapshot.config ∧ w.Minds id holder delay s.config := by
  rw [transition, if_pos hold] at h
  cases hrun : m.transitionRun scope s event with
  | error e w =>
      rw [hrun] at h
      cases h
  | ok _ w =>
      rw [hrun] at h
      cases h
      exact ⟨w, rfl, rfl, rfl, settle_minds ht (fun _ => minds_begin hscope rfl rfl) hrun hactive⟩

/-- So does a machine that begins, when no state has been active. -/
theorem initialState_minds {scope scope' : Scope} {input : Json} {s : MachineSnapshot}
    (hscope : scope.effects = []) (h : m.initialState scope input = (scope', .ok s))
    (hactive : s.status = .active) : ∃ w : Work, scope'.effects = w.scope.effects ∧
      s.config = w.snapshot.config ∧ w.Minds id holder delay .empty := by
  unfold initialState at h
  cases hrun : m.initialRun scope input with
  | error e w =>
      rw [hrun] at h
      cases h
  | ok _ w =>
      rw [hrun] at h
      cases h
      obtain ⟨_, w₁, henter, hsettle⟩ := bind_eq_ok hrun
      exact ⟨w, rfl, rfl, settle_minds ht
        (fun hgoes => enter_minds ht (minds_begin hscope rfl rfl) henter hgoes) hsettle hactive⟩

end Tends

end Machine

end Statechart
