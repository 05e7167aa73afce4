import Statechart.Yaml.Cursor
import Statechart.Yaml.Token

/-!
# Plain and quoted scalars

Where a plain or quoted scalar goes on over several lines, one line break between two lines is read
as a blank, and of more breaks all but the first are kept.
-/

namespace Statechart.Yaml

/-! ## Joining lines -/

/-- A scalar that is being read: its text, last character first, and the blanks and line breaks
after it, which count only if more text follows. -/
structure Gathered where
  text : List Char := []
  spaces : List Char := []
  /-- The first line break. -/
  first : Option Char := none
  /-- The other line breaks, last one first. -/
  more : List Char := []
  /-- Whether a line has ended, so that blanks are indentation. -/
  broken : Bool := false

namespace Gathered

def space (g : Gathered) (c : Char) : Gathered :=
  if g.broken then g else { g with spaces := c :: g.spaces }

def newline (g : Gathered) (c : Char) : Gathered :=
  if g.broken then { g with more := breakText c :: g.more }
  else { g with spaces := [], first := some (breakText c), broken := true }

/-- What the blanks and line breaks amount to, last character first. -/
def gap (g : Gathered) : List Char :=
  if g.broken then
    match g.first with
    | some '\n' => if g.more.isEmpty then [' '] else g.more
    | some c => g.more ++ [c]
    | none => g.more
  else g.spaces

/-- Counts the blanks and line breaks as text. -/
def joined (g : Gathered) : Gathered := { text := g.gap ++ g.text }

def push (g : Gathered) (c : Char) : Gathered := { text := c :: (g.gap ++ g.text) }

def toString (g : Gathered) : String := String.ofList g.text.reverse

end Gathered

/-! ## Plain scalars -/

/-- Characters that structure flow collections. -/
def isFlowIndicator (c : Char) : Bool := [',', '[', ']', '{', '}'].contains c

/-- Reads on in a plain scalar. In a block it ends before a line that is indented less than
`indent`; in a flow collection it ends at punctuation, and a colon has to be followed by something
else. `fresh` tells that a blank or a line break stands before. -/
def plain? (flow : Bool) (indent : Nat) (fresh : Bool) (g : Gathered) (c : Cursor) :
    Option (Gathered × Cursor) :=
  match _h : c.rest with
  | [] => some (g, c)
  | ch :: after =>
      if isBreak ch then plain? flow indent true (g.newline ch) c.nextLine
      else if isBlank ch then
        if g.broken && ch == '\t' && decide (c.column < indent) then none
        else plain? flow indent true (g.space ch) c.next
      else
        let ends := fresh &&
          (ch == '#' || (!flow && decide (c.column < indent)) || c.atMarker)
        let punctuated := flow && ch == ':' &&
          after.head?.any fun next => next == '?' || isFlowIndicator next
        if ends then some (g, c)
        else if punctuated then none
        else if (ch == ':' && endsWord after) || (flow && isFlowIndicator ch) then some (g, c)
        else plain? flow indent false (g.push ch) c.next
termination_by c.rest.length
decreasing_by
  · exact Cursor.nextLine_lt ‹_›
  · exact Cursor.next_lt ‹_›
  · exact Cursor.next_lt ‹_›

/-! ## Quoted scalars -/

/-- The character that one letter after a backslash stands for. -/
def shortEscape? (c : Char) : Option Char :=
  match c with
  | '0' => some (Char.ofNat 0)
  | 'a' => some (Char.ofNat 0x07)
  | 'b' => some (Char.ofNat 0x08)
  | 't' => some '\t'
  | '\t' => some '\t'
  | 'n' => some '\n'
  | 'v' => some (Char.ofNat 0x0B)
  | 'f' => some (Char.ofNat 0x0C)
  | 'r' => some '\r'
  | 'e' => some (Char.ofNat 0x1B)
  | ' ' => some ' '
  | '"' => some '"'
  | '/' => some '/'
  | '\\' => some '\\'
  | 'N' => some (Char.ofNat 0x85)
  | '_' => some (Char.ofNat 0xA0)
  | 'L' => some (Char.ofNat 0x2028)
  | 'P' => some (Char.ofNat 0x2029)
  | _ => none

/-- How many digits follow a letter that announces a code point. -/
def escapeDigits? (c : Char) : Option Nat :=
  match c with
  | 'x' => some 2
  | 'u' => some 4
  | 'U' => some 8
  | _ => none

/-- The character of a code point in hexadecimal digits. -/
def codePoint? (count : Nat) (cs : List Char) : Option Char := do
  if cs.length < count then none
  let digits ← (cs.take count).mapM hexValue?
  let n := digits.foldl (fun n d => n * 16 + d) 0
  if n.isValidChar then some (Char.ofNat n) else none

/-- The character that stands after a backslash, and how many characters it takes there. -/
def escape? : List Char → Option (Char × Nat)
  | [] => none
  | c :: after =>
      match escapeDigits? c with
      | some count => (codePoint? count after).map fun ch => (ch, count + 1)
      | none => (shortEscape? c).map fun ch => (ch, 1)

/-- Reads on in a scalar between single or double quotes, up to the closing quote. No line of it
looks like the beginning or the end of a document. A backslash at the end of a line joins the next
line without a blank. -/
def quoted? (single : Bool) (g : Gathered) (c : Cursor) : Option (String × Cursor) :=
  match _h : c.rest with
  | [] => none
  | ch :: after =>
      if isBreak ch then quoted? single (g.newline ch) c.nextLine
      else if isBlank ch then quoted? single (g.space ch) c.next
      else if c.atMarker then none
      else if ch == (if single then '\'' else '"') then
        if single && after.head? == some '\'' then quoted? single (g.push '\'') (c.advance 2)
        else some (g.joined.toString, c.next)
      else if single || ch != '\\' then quoted? single (g.push ch) c.next
      else if after.head?.any isBreak then
        quoted? single { g.joined with broken := true } c.next.nextLine
      else
        match escape? after with
        | some (escaped, width) => quoted? single (g.push escaped) (c.advance (width + 1))
        | none => none
termination_by c.rest.length
decreasing_by
  · exact Cursor.nextLine_lt ‹_›
  · exact Cursor.next_lt ‹_›
  · exact Cursor.advance_lt (by decide) ‹_›
  · exact Cursor.next_lt ‹_›
  · exact Nat.lt_of_le_of_lt (Cursor.nextLine_le _) (Cursor.next_lt ‹_›)
  · exact Cursor.advance_lt (Nat.succ_pos _) ‹_›

end Statechart.Yaml
