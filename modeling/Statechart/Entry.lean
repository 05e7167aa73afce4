import Statechart.Domain

/-!
# Entry sets

The states that transitions enter: their targets, what the targets need below them, the states
between the targets and the domain, and the regions of parallel states on the way that no target
lies in.
-/

namespace Statechart.Definition

variable {L : Type} (d : Definition L)

/-- Whether some state of a set lies in a region. -/
def isCovered (entry : Configuration) (region : Nat) : Bool :=
  entry.toList.any fun s => s == region || d.isDescendant s region

/-- Enters the regions of a parallel state in which nothing is entered yet. -/
def fillRegions (enter : Configuration → Nat → Configuration) (entry : Configuration)
    (parallel : Nat) : Configuration :=
  (d.node parallel).children.foldl
    (fun entry region =>
      if (d.node region).isHistory || d.isCovered entry region then entry else enter entry region)
    entry

/-- Adds a state that is passed on the way down, with the other regions if it is parallel. -/
def addPassed (enter : Configuration → Nat → Configuration) (entry : Configuration)
    (state : Nat) : Configuration :=
  let entry := entry.insert state
  if (d.node state).kind = .parallel then d.fillRegions enter entry state else entry

/-- Adds what lies between a state and `top`. All regions of `top` have been left, so they are
entered again if it is parallel. -/
def addAbove (enter : Configuration → Nat → Configuration) (top : Option Nat)
    (entry : Configuration) (state : Nat) : Configuration :=
  let entry := (d.properAncestors state top).foldl (d.addPassed enter) entry
  match top with
  | some a => if (d.node a).kind = .parallel then d.fillRegions enter entry a else entry
  | none => entry

/-- Adds a state with everything it needs below it, for at most `fuel` levels of states and jumps
through history. -/
def addState (history : HistoryValue) : Nat → Configuration → Nat → Configuration
  | 0, entry, _ => entry
  | fuel + 1, entry, state =>
      let enter := addState history fuel
      let n := d.node state
      match n.kind with
      | .history =>
          let targets := d.historyTargets history state
          -- First what is remembered, then the way down to it with the other regions on it.
          targets.foldl (d.addAbove enter n.parent) (targets.foldl enter entry)
      | .compound =>
          match n.initial with
          | some i => d.addAbove enter (some state) (enter (entry.insert state) i) i
          | none => entry.insert state
      | .parallel => d.fillRegions enter (entry.insert state) state
      | _ => entry.insert state

/-- Enough levels: between two jumps through history a path only goes down. -/
def entryFuel : Nat := (d.nodes.size + 1) * (d.nodes.size + 1)

def enterState (history : HistoryValue) : Configuration → Nat → Configuration :=
  d.addState history d.entryFuel

/-- Adds what one transition enters. -/
def addEntered (history : HistoryValue) (entry : Configuration) (t : Transition L) :
    Configuration :=
  if t.isTargetless then entry
  else
    -- The targets come first, so that no region which holds one is filled by default.
    (d.effectiveTargets history t).foldl
      (d.addAbove (d.enterState history) (d.domain history t))
      (t.targets.foldl (d.enterState history) entry)

/-- The states that transitions enter, those that are still active included. -/
def entrySet (history : HistoryValue) (transitions : List (Transition L)) : Configuration :=
  transitions.foldl (d.addEntered history) .empty

/-- The states that a machine starts in. -/
def initialEntrySet : Configuration := d.enterState [] .empty rootIndex

end Statechart.Definition
