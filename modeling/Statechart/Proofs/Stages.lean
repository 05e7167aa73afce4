import Mathlib.Data.List.Basic
import Statechart.Actor.Delivery

/-!
# Stages of an actor's work

What is still to be done stands on a stack of frames. Those that an actor's own work goes on with
are its stages, and they can stand on each other in few orders only (`Legal`). Whatever takes the
place of the first stage leads to such an order again (`legal_turns`).
-/

namespace Statechart

/-- A part of the work of an actor. -/
inductive Stage where
  /-- The mailbox is worked off. -/
  | drain
  /-- Something that an effect has led to goes on. -/
  | aside
  | effects
  | launch
  | settle
  | halt
  | retire
  | failed
  | finish
  | tell
deriving DecidableEq

/-- The actor whose work a frame goes on with, and at which stage. -/
def Frame.stage : Frame → Option (Session × Stage)
  | .drain s => some (s, .drain)
  | .effects s _ => some (s, .effects)
  | .delivered s => some (s, .aside)
  | .launch s _ => some (s, .launch)
  | .settle s _ _ => some (s, .settle)
  | .failed s _ _ => some (s, .failed)
  | .halt s => some (s, .halt)
  | .retire s => some (s, .retire)
  | .finish s => some (s, .finish)
  | .tellParent s _ => some (s, .tell)
  | .script owner _ => owner.map fun s => (s, .aside)
  | .resume owner _ _ => owner.map fun s => (s, .aside)
  | _ => none

/-- The stage of an actor's work that a frame is at. -/
def Frame.stageOf (s : Session) (f : Frame) : Option Stage :=
  f.stage.bind fun at_ => if at_.1 = s then some at_.2 else none

/-- The stages of an actor's work that are still to come, the next one first. -/
def stages (s : Session) (frames : List Frame) : List Stage := frames.filterMap (Frame.stageOf s)

/-- The orders in which the stages of an actor can stand. -/
def Legal : List Stage → Prop
  | [] => True
  | .drain :: rest => rest = []
  | .aside :: rest => (rest.head? = some .aside ∨ rest.head? = some .effects) ∧ Legal rest
  | .effects :: rest =>
      rest = [.launch, .drain] ∨ rest = [.settle, .drain] ∨ rest = [.halt, .finish, .drain]
  | .launch :: rest => rest = [.drain]
  | .settle :: rest => rest = [.drain]
  | .halt :: rest =>
      rest = [.finish, .tell, .drain] ∨ rest = [.failed, .drain] ∨ rest = [.finish, .drain] ∨
        rest = [.finish]
  | .retire :: rest =>
      rest = [.finish, .tell, .drain] ∨ rest = [.failed, .drain] ∨ rest = [.finish, .drain] ∨
        rest = [.finish]
  | .failed :: rest => rest = [.drain]
  | .finish :: rest => rest = [.tell, .drain] ∨ rest = [.drain] ∨ rest = []
  | .tell :: rest => rest = [.drain]

/-- What can take the place of a stage. -/
inductive Stage.Turns : Stage → List Stage → Prop
  | emptied : Turns .drain []
  | passed : Turns .drain [.drain]
  | begun : Turns .drain [.effects, .launch, .drain]
  | reacted : Turns .drain [.effects, .settle, .drain]
  | stopped : Turns .drain [.effects, .halt, .finish, .drain]
  | returned : Turns .aside []
  | resumed : Turns .aside [.aside]
  | exhausted : Turns .effects []
  | advanced : Turns .effects [.effects]
  | interrupted : Turns .effects [.aside, .effects]
  | launched : Turns .launch [.effects, .settle]
  | settled : Turns .settle []
  | done : Turns .settle [.halt, .finish, .tell]
  | broken : Turns .settle [.halt, .failed]
  | halted : Turns .halt [.retire]
  | retired : Turns .retire []
  | reported : Turns .failed [.tell]
  | finished : Turns .finish []
  | told : Turns .tell []

/-- The work of an actor goes on in a legal order. -/
theorem legal_turns {x : Stage} {ys rest : List Stage} (h : Legal (x :: rest)) (hturns : x.Turns ys) :
    Legal (ys ++ rest) := by
  cases hturns with
  | passed | resumed | advanced | halted => exact h
  | returned => exact h.2
  | interrupted => exact ⟨.inr rfl, h⟩
  | exhausted => rcases h with rfl | rfl | rfl <;> simp [Legal]
  | retired => rcases h with rfl | rfl | rfl | rfl <;> simp [Legal]
  | finished => rcases h with rfl | rfl | rfl <;> simp [Legal]
  | _ =>
      obtain rfl := h
      simp [Legal]

end Statechart
