import Statechart.Text.Split

/-!
# Event descriptors

What a transition listens for: one event name, a family of names, every event, or no event at all.
A family `a.b.*` holds the name `a.b` and every name that continues it after a dot.
-/

namespace Statechart

inductive Descriptor where
  /-- One event name. -/
  | exact (name : String)
  /-- A name and all its dotted extensions. -/
  | family (stem : String)
  | wildcard
  /-- No event: the transition is tried after every step. -/
  | eventless
deriving DecidableEq, Inhabited

namespace Descriptor

def parse (text : String) : Descriptor :=
  if text = "*" then .wildcard
  else match Text.stripEnd? ".*" text with
    | some stem => .family stem
    | none => .exact text

/-- Whether an event name is among those listened for. -/
def matchesName (d : Descriptor) (name : String) : Bool :=
  match d with
  | .exact n => n == name
  | .family stem => name == stem || Text.startsWith (stem ++ ".") name
  | .wildcard => true
  | .eventless => false

/-- Ranks families by their length in bytes; the wildcard comes after all of them. -/
def specificity : Descriptor → Nat
  | .exact name => name.utf8ByteSize + 2
  | .family stem => stem.utf8ByteSize + 2
  | .wildcard => 1
  | .eventless => 0

def text : Descriptor → String
  | .exact name => name
  | .family stem => stem ++ ".*"
  | .wildcard => "*"
  | .eventless => "(always)"

/-- Whether the descriptor stands for several names. -/
def isOpen : Descriptor → Bool
  | .family _ => true
  | .wildcard => true
  | _ => false

end Descriptor

end Statechart
