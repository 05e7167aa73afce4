/-!
# Places in a text

A `Cursor` is a place in a text: what stands there and after it, the number of characters before it,
and its line and column. A line ends with a line feed, a carriage return, both together, a next-line
character, or a line or paragraph separator.
-/

namespace Statechart.Yaml

/-! ## Characters -/

def isBlank (c : Char) : Bool := c == ' ' || c == '\t'

/-- Whether a character ends a line. -/
def isBreak (c : Char) : Bool :=
  c == '\n' || c == '\r' || [0x85, 0x2028, 0x2029].contains c.toNat

/-- How a line break stands in a value: as a line feed, but for the two separators. -/
def breakText (c : Char) : Char := if [0x2028, 0x2029].contains c.toNat then c else '\n'

/-- The mark of byte order, which may begin a line. -/
def isByteOrderMark (c : Char) : Bool := c.toNat == 0xFEFF

/-- Characters of anchors, directives and the handles of tags. -/
def isWordChar (c : Char) : Bool := c.isAlphanum || c == '_' || c == '-'

/-- Whether a text may hold a character: controls, except for tabs and line breaks, and the last two
code points of the first plane are refused. -/
def isAllowed (c : Char) : Bool :=
  let n := c.toNat
  [0x09, 0x0A, 0x0D, 0x85].contains n || (0x20 ≤ n && n ≤ 0x7E) ||
    (0xA0 ≤ n && n != 0xFFFE && n != 0xFFFF)

/-- The value of a hexadecimal digit. -/
def hexValue? (c : Char) : Option Nat :=
  if c.isDigit then some (c.toNat - '0'.toNat)
  else if 'a' ≤ c ∧ c ≤ 'f' then some (c.toNat - 'a'.toNat + 10)
  else if 'A' ≤ c ∧ c ≤ 'F' then some (c.toNat - 'A'.toNat + 10)
  else none

/-- Whether a word ends here: at a blank, at the end of the line or at the end of the text. -/
def endsWord : List Char → Bool
  | [] => true
  | c :: _ => isBlank c || isBreak c

/-! ## Cursors -/

structure Cursor where
  rest : List Char
  index : Nat := 0
  line : Nat := 0
  column : Nat := 0

namespace Cursor

/-- Some characters further on the same line. -/
def advance (c : Cursor) (n : Nat) : Cursor :=
  { c with rest := c.rest.drop n, index := c.index + n, column := c.column + n }

/-- One character further on the same line. -/
def next (c : Cursor) : Cursor := c.advance 1

/-- Past the line break that stands here. -/
def nextLine (c : Cursor) : Cursor :=
  let width := if c.rest.take 2 = ['\r', '\n'] then 2 else 1
  { rest := c.rest.drop width, index := c.index + width, line := c.line + 1, column := 0 }

/-- Whether the character here passes a test. -/
def sees (c : Cursor) (p : Char → Bool) : Bool :=
  match c.rest with
  | [] => false
  | ch :: _ => p ch

/-- Whether a line begins here with the mark that begins or ends a document. -/
def atMarker (c : Cursor) : Bool :=
  c.column == 0 && (c.rest.take 3 == ['-', '-', '-'] || c.rest.take 3 == ['.', '.', '.']) &&
    endsWord (c.rest.drop 3)

theorem advance_lt {c : Cursor} {n : Nat} (hn : 0 < n) {ch : Char} {rest : List Char}
    (h : c.rest = ch :: rest) : (c.advance n).rest.length < c.rest.length := by
  simp only [advance, List.length_drop, h, List.length_cons]
  omega

theorem next_lt {c : Cursor} {ch : Char} {rest : List Char} (h : c.rest = ch :: rest) :
    c.next.rest.length < c.rest.length :=
  advance_lt Nat.one_pos h

theorem nextLine_lt {c : Cursor} {ch : Char} {rest : List Char} (h : c.rest = ch :: rest) :
    c.nextLine.rest.length < c.rest.length := by
  simp only [nextLine, List.length_drop, h, List.length_cons]
  split <;> omega

theorem nextLine_le (c : Cursor) : c.nextLine.rest.length ≤ c.rest.length := by
  simp only [nextLine, List.length_drop]
  omega

/-- Takes the characters here that pass a test, on one line. -/
def takeWhile (p : Char → Bool) (c : Cursor) : List Char × Cursor :=
  let word := c.rest.takeWhile p
  (word, c.advance word.length)

/-- Past the characters here that pass a test, on one line. -/
def skipWhile (p : Char → Bool) (c : Cursor) : Cursor := (c.takeWhile p).2

/-- Past the end of a line on which nothing but a comment is left. -/
def finishLine? (c : Cursor) : Option Cursor :=
  let c := c.skipWhile isBlank
  let c := if c.sees (· == '#') then c.skipWhile (!isBreak ·) else c
  match c.rest with
  | [] => some c
  | ch :: _ => if isBreak ch then some c.nextLine else none

end Cursor

end Statechart.Yaml
