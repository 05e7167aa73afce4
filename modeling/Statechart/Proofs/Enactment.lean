import Statechart.Proofs.Failures

/-!
# What the marks of a step stand for

When the entry or exit actions of a state or the actions of a transition are through, a step puts down
a mark. `Machine.Enacts` ties these marks to the actions: on the way from one state of a step to another,
the list of each mark has been carried out, from its first action to its last and one list after the
other (`Machine.CarriesOut`), and nothing has been carried out in between (`Work.Pauses`).
-/

namespace Statechart

/-! ## Moves -/

/-- The mark is about the actions of a state or of a transition, or begins a microstep. -/
def Mark.isMove : Mark → Bool
  | .microstep _ => true
  | .exited _ => true
  | .taken _ => true
  | .entered _ => true
  | _ => false

/-- The actions that have been carried out when the mark is put down. -/
def Mark.actions (d : Definition Logic) : Mark → List (Action Logic)
  | .exited state => (d.node state).exit
  | .taken transition => (d.transition transition).actions
  | .entered state => (d.node state).entry
  | _ => []

namespace Work

/-- What happened, in order. -/
def marks (w : Work) : List Mark := w.journal.reverse

/-- What happened to states and transitions, in order. -/
def moves (w : Work) : List Mark := w.marks.filter Mark.isMove

theorem moves_cons {w w' : Work} {k : Mark} (hk : k.isMove = true)
    (h : w'.journal = k :: w.journal) : w'.moves = w.moves ++ [k] := by
  rw [moves, moves, marks, marks, h, List.reverse_cons, List.filter_append,
    List.filter_cons_of_pos hk, List.filter_nil]

theorem moves_aside {w w' : Work} {k : Mark} (hk : k.isMove = false)
    (h : w'.journal = k :: w.journal) : w'.moves = w.moves := by
  rw [moves, moves, marks, marks, h, List.reverse_cons, List.filter_append,
    List.filter_cons_of_neg (by simp [hk]), List.filter_nil, List.append_nil]

theorem Queues.moves_eq {w w' : Work} (h : w.Queues w') : w'.moves = w.moves := by
  rw [moves, moves, marks, marks]
  cases h with
  | still _ hjournal => rw [hjournal]
  | raised event _ hjournal => simp [hjournal, Mark.isMove]
  | failed e _ hjournal => simp [hjournal, Mark.isMove]

/-- No action is carried out: none is recorded, the context stays, and nothing is asked for or done
to other actors. -/
structure Pauses (w w' : Work) : Prop where
  scope : w'.scope = w.scope
  context : w'.snapshot.context = w.snapshot.context
  actions : w'.snapshot.actions = w.snapshot.actions
  moves : w'.moves = w.moves

/-- A mark that is no move is put down. -/
theorem Pauses.marked (w : Work) {k : Mark} (hk : k.isMove = false) :
    w.Pauses { w with journal := k :: w.journal } :=
  ⟨rfl, rfl, rfl, moves_aside hk rfl⟩

end Work

namespace Machine

open StepM

/-! ## Lists of actions -/

/-- Actions are carried out to the last one, those that stand in for one of them in its place. -/
inductive CarriesOut (m : Machine) (event : Event) : List Task → Work → Work → Prop
  | nil {w : Work} : CarriesOut m event [] w w
  | cons {task : Task} {instead rest : List Task} {w w₁ w' : Work}
      (h : m.perform event task w = .ok instead w₁)
      (hrest : CarriesOut m event (instead ++ rest) w₁ w') : CarriesOut m event (task :: rest) w w'

variable {m : Machine} {w w₁ w' : Work} {event : Event} {k : Mark} {ks ks' : List Mark}

theorem carriesOut_performAll : ∀ {fuel : Nat} {tasks : List Task} {w : Work},
    m.performAll event fuel tasks w = .ok () w' → m.CarriesOut event tasks w w'
  | 0, [], w, h => by
      cases h
      exact .nil
  | _ + 1, [], w, h => by
      cases h
      exact .nil
  | 0, _ :: _, w, h => by
      -- a list that is too long is not carried out
      obtain ⟨_, _, -, h⟩ := bind_eq_ok h
      cases h
  | fuel + 1, task :: rest, w, h => by
      obtain ⟨instead, w₁, htask, hrest⟩ := bind_eq_ok h
      exact .cons htask (carriesOut_performAll hrest)

/-- Actions put down no moves. -/
theorem CarriesOut.moves {tasks : List Task} (h : m.CarriesOut event tasks w w') :
    w'.moves = w.moves := by
  induction h with
  | nil => rfl
  | @cons task _ _ w _ _ htask _ ih =>
      have hruns : Runs (Performs fun _ => True) (m.perform event task) :=
        performs_perform m.confines_all trivial
      exact ih.trans (hruns.keeps (fun _ _ h => h.queues.moves_eq) htask)

/-- Actions change neither configuration nor status. -/
theorem execute_ok {actions : List (Action Logic)} (h : m.execute actions event w = .ok () w') :
    w'.snapshot.config = w.snapshot.config ∧ w'.snapshot.status = w.snapshot.status := by
  have hruns : Runs (Performs fun _ => True) (m.execute actions event) :=
    performs_execute m.confines_all fun _ _ => trivial
  exact ⟨hruns.keeps (fun _ _ h => h.config) h, hruns.keeps (fun _ _ h => h.status) h⟩

/-! ## Marks and their lists -/

/-- What has been done from one state of a step to another: the list of each mark has been carried
out, and the mark put down then. In between nothing is carried out. -/
inductive Enacts (m : Machine) : List Mark → Work → Work → Prop
  | nil {w : Work} : Enacts m [] w w
  | pause {ks : List Mark} {w w₁ w' : Work} (h : w.Pauses w₁) (hrest : Enacts m ks w₁ w') :
      Enacts m ks w w'
  | act {k : Mark} {ks : List Mark} {event : Event} {w w₁ w' : Work} (hk : k.isMove = true)
      (h : m.CarriesOut event ((k.actions m.definition).map (⟨·, .null⟩)) w w₁)
      (hrest : Enacts m ks { w₁ with journal := k :: w₁.journal } w') : Enacts m (k :: ks) w w'

theorem Enacts.trans (h : m.Enacts ks w w₁) (h' : m.Enacts ks' w₁ w') :
    m.Enacts (ks ++ ks') w w' := by
  induction h with
  | nil => exact h'
  | pause hpause _ ih => exact .pause hpause (ih h')
  | act hk hlist _ ih => exact .act hk hlist (ih h')

theorem Enacts.rest (h : m.Enacts ks w w₁) (hpause : w₁.Pauses w') : m.Enacts ks w w' := by
  have hall := h.trans (.pause hpause .nil)
  rwa [List.append_nil] at hall

/-- The marks put down on the way are those that have been enacted. -/
theorem Enacts.moves (h : m.Enacts ks w w') : w'.moves = w.moves ++ ks := by
  induction h with
  | nil => exact (List.append_nil _).symm
  | pause hpause _ ih => rw [ih, hpause.moves]
  | @act k ks _ w w₁ _ hk hlist _ ih =>
      rw [ih, Work.moves_cons (w := w₁) hk rfl, hlist.moves, List.append_assoc]
      rfl

/-- To carry out a list and put down its mark. -/
theorem enacts_execute (hk : k.isMove = true)
    (h : m.execute (k.actions m.definition) event w = .ok () w₁) :
    m.Enacts [k] w { w₁ with journal := k :: w₁.journal } :=
  .act hk (carriesOut_performAll h) .nil

end Machine

end Statechart
