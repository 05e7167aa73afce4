import Statechart.Yaml.Cursor

/-!
# Block scalars

A literal block keeps its line breaks; a folded one joins lines that do not begin with a blank. What
becomes of the line breaks at the end, and how deep the block is indented, may be told on the line
where it begins.
-/

namespace Statechart.Yaml

/-- What becomes of the line breaks at the end of a block scalar. -/
inductive Chomping where
  | strip
  /-- One line break is kept. -/
  | clip
  | keep
deriving DecidableEq

/-- Takes the sign for what becomes of the line breaks at the end. -/
def chomping (c : Cursor) : Option Chomping × Cursor :=
  match c.rest with
  | '-' :: _ => (some .strip, c.next)
  | '+' :: _ => (some .keep, c.next)
  | _ => (none, c)

/-- Takes the digit that tells the indentation, which is not zero. -/
def increment? (c : Cursor) : Option (Option Nat × Cursor) :=
  match c.rest with
  | ch :: _ =>
      if ch == '0' then none
      else if ch.isDigit then some (some (ch.toNat - '0'.toNat), c.next)
      else some (none, c)
  | [] => some (none, c)

/-- The rest of the line on which a block scalar begins: both signs, in either order. -/
def blockHeader? (c : Cursor) : Option (Chomping × Option Nat × Cursor) := do
  let (before, c) := chomping c
  let (increment, c) ← increment? c
  let (after, c) := if before.isSome then (none, c) else chomping c
  some ((before <|> after).getD .clip, increment, ← c.finishLine?)

/-- The indentation of a block scalar that does not tell it: of its first line that is not empty, or
of an empty line before that is longer, but at least `least`. No tab stands there. -/
def detectIndent? (least : Nat) (c : Cursor) : Option Nat :=
  match _h : c.rest with
  | [] => some (max least c.column)
  | ch :: _ =>
      if isBreak ch then detectIndent? (max least c.column) c.nextLine
      else if ch == ' ' then detectIndent? least c.next
      else if ch == '\t' then none
      else some (max least c.column)
termination_by c.rest.length
decreasing_by
  · exact Cursor.nextLine_lt ‹_›
  · exact Cursor.next_lt ‹_›

/-- A block scalar that is being read. -/
structure BlockText where
  /-- Last character first. -/
  text : List Char := []
  inLine : Bool := false
  /-- Whether the last line begins with a blank. -/
  blankStart : Bool := false
  /-- The line break after the last line. -/
  lineBreak : Option Char := none
  /-- The line breaks of the empty lines after it, last one first. -/
  more : List Char := []

namespace BlockText

/-- Begins a line. A folded scalar joins two lines, neither of which begins with a blank, by a blank
or, if there are empty lines between them, by the line breaks of these alone. -/
def begin (folded : Bool) (ch : Char) (b : BlockText) : BlockText :=
  let folds := folded && b.lineBreak == some '\n' && !b.blankStart && !isBlank ch
  let joint :=
    if folds then (if b.more.isEmpty then [' '] else []) else b.lineBreak.toList
  { text := ch :: (b.more ++ joint ++ b.text), inLine := true, blankStart := isBlank ch }

def toString (chomping : Chomping) (b : BlockText) : String :=
  let tail := match chomping with
    | .strip => []
    | .clip => b.lineBreak.toList
    | .keep => b.more ++ b.lineBreak.toList
  String.ofList (tail ++ b.text).reverse

end BlockText

/-- Reads on in a block scalar, up to a line that is indented less or to the end. -/
def blockLines? (folded : Bool) (indent : Nat) (b : BlockText) (c : Cursor) :
    Option (BlockText × Cursor) :=
  match _h : c.rest with
  | [] => some (b, c)
  | ch :: _ =>
      if isBreak ch then
        let b := if b.inLine then { b with lineBreak := some (breakText ch), inLine := false }
          else { b with more := breakText ch :: b.more }
        blockLines? folded indent b c.nextLine
      else if b.inLine then blockLines? folded indent { b with text := ch :: b.text } c.next
      else if indent ≤ c.column then
        if c.column = indent then blockLines? folded indent (b.begin folded ch) c.next
        else some (b, c)
      else if ch == ' ' then blockLines? folded indent b c.next
      else if ch == '\t' then none
      else some (b, c)
termination_by c.rest.length
decreasing_by
  · exact Cursor.nextLine_lt ‹_›
  · exact Cursor.next_lt ‹_›
  · exact Cursor.next_lt ‹_›
  · exact Cursor.next_lt ‹_›

/-- Reads a block scalar after the sign that begins it; `outer` is the least column that is deeper
than the collection around it. -/
def blockScalar? (folded : Bool) (outer : Nat) (c : Cursor) : Option (String × Cursor) := do
  let (chomping, increment, c) ← blockHeader? c
  let indent ← match increment with
    | some n => some (outer - 1 + n)
    | none => detectIndent? (max outer 1) c
  let (b, c) ← blockLines? folded indent {} c
  some (b.toString chomping, c)

end Statechart.Yaml
