import Statechart.History

/-!
# Domains and exit sets

The domain of a transition is the state whose descendants the transition leaves and enters. A
transition with no domain concerns the whole machine, root included. Targets count with history
states replaced by what these stand for.
-/

namespace Statechart.Definition

variable {L : Type} (d : Definition L)

/-! ## Effective targets -/

def addNew (out : List Nat) (state : Nat) : List Nat :=
  if out.contains state then out else out ++ [state]

/-- Adds a target, or the states that a history state stands for, through at most `fuel` history
states that lead to each other. -/
def addTarget (history : HistoryValue) : Nat → List Nat → Nat → List Nat
  | 0, out, _ => out
  | fuel + 1, out, state =>
      if (d.node state).isHistory then
        match SortedMap.find? state history with
        | some recorded => recorded.foldl addNew out
        | none => (d.historyDefaults state).foldl (addTarget history fuel) out
      else addNew out state

/-- The targets of a transition, history replaced, each once. -/
def effectiveTargets (history : HistoryValue) (t : Transition L) : List Nat :=
  t.targets.foldl (d.addTarget history (d.nodes.size + 1)) []

/-! ## Domains -/

/-- Whether all targets of a transition lie in its source. -/
def staysInside (source : Nat) (targets : List Nat) : Bool :=
  targets.all fun t => t == source || d.isDescendant t source

/-- The domain: the source of an internal transition, else the nearest state around the source that
has all targets below it. -/
def domain (history : HistoryValue) (t : Transition L) : Option Nat :=
  let targets := d.effectiveTargets history t
  if targets.isEmpty then none
  else if !t.reenter && d.staysInside t.source targets then some t.source
  else (d.properAncestors t.source none).find? fun a => targets.all fun s => d.isDescendant s a

/-- The active states that a transition leaves. -/
def exitSet (config : Configuration) (history : HistoryValue) (t : Transition L) :
    Configuration :=
  if t.isTargetless then .empty
  else match d.domain history t with
    | some a => .ofList (config.toList.filter fun s => d.isDescendant s a)
    -- Without a domain the machine is left as a whole, and its root with it.
    | none => config

end Statechart.Definition
