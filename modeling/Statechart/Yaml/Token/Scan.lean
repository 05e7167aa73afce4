import Statechart.Yaml.Token.Block
import Statechart.Yaml.Token.Scalar
import Statechart.Yaml.Token.Tag

/-!
# From text to tokens

Whether a word is the key of a pair is known only when a colon follows it. So the scanner remembers
where the last word that may be a key began, one for each flow collection that is open, and puts the
token of the key there when it meets the colon. A key and its colon stand on one line, at most 1024
characters apart. Block collections are opened and closed by the column in which their words begin.
-/

namespace Statechart.Yaml

/-- A word that is the key of a pair if a colon follows. -/
structure KeyStart where
  /-- The number of tokens before it. -/
  position : Nat
  cursor : Cursor
  /-- Whether it has to be a key, since it stands where a pair of the block begins. -/
  required : Bool

/-- Whether a word cannot be a key any more at a place. -/
def KeyStart.isStale (k : KeyStart) (c : Cursor) : Bool :=
  decide (k.cursor.line < c.line) || decide (k.cursor.index + 1024 < c.index)

/-- The numbers of the anchors that were read, by their names. -/
abbrev Anchors := List (String × Nat)

/-- Gives an anchor the number of names before it, one that was read already included. So if a name
is used again, the next new one has the same number. -/
def Anchors.add (name : String) (anchors : Anchors) : Anchors :=
  (name, anchors.length) :: anchors.filter fun entry => entry.1 ≠ name

structure Scanner where
  cursor : Cursor
  tokens : Array Token := #[]
  /-- The columns of the open block collections, innermost first. -/
  indents : List Nat := []
  /-- The last word that may be a key, if there is one. -/
  keyStart : Option KeyStart := none
  /-- The words that may be keys outside each open flow collection, innermost first. -/
  outerKeys : List (Option KeyStart) := []
  /-- Whether a key may begin here. -/
  keyAllowed : Bool := true
  anchors : Anchors := []

namespace Scanner

def inFlow (s : Scanner) : Bool := !s.outerKeys.isEmpty

/-- The least column that is deeper than the block collection around. -/
def outer (s : Scanner) : Nat :=
  match s.indents with
  | [] => 0
  | column :: _ => column + 1

def emit (s : Scanner) (t : Token) : Scanner := { s with tokens := s.tokens.push t }

/-- Adds a token and goes on behind the word it was read from. -/
def emitAt (s : Scanner) (t : Token) (c : Cursor) : Scanner :=
  { s.emit t with cursor := c }

/-- Adds a token before those from a position on. -/
def insert (s : Scanner) (position : Nat) (t : Token) : Scanner :=
  { s with tokens := s.tokens.insertIdxIfInBounds position t }

/-! ## Indentation -/

/-- Opens a block collection at a column that is deeper than the one around. -/
def openBlock (s : Scanner) (column position : Nat) (start : Token) : Scanner :=
  if !s.inFlow && decide (s.outer ≤ column) then
    { s.insert position start with indents := column :: s.indents }
  else s

/-- Closes the block collections that are deeper than those of some columns. -/
def closeBlocks (s : Scanner) (stays : Nat → Bool) : Scanner :=
  if s.inFlow then s
  else
    let ended := s.indents.takeWhile fun column => !stays column
    { s with
      tokens := ended.foldl (fun tokens _ => tokens.push .blockEnd) s.tokens
      indents := s.indents.dropWhile fun column => !stays column }

/-! ## Keys -/

/-- Forgets a word that cannot be a key any more, unless it has to be one. -/
def dropStale? (c : Cursor) : Option KeyStart → Option (Option KeyStart)
  | none => some none
  | some k =>
      if k.isStale c then (if k.required then none else some none) else some (some k)

def dropStaleKeys? (s : Scanner) : Option Scanner := do
  let outerKeys ← s.outerKeys.mapM (dropStale? s.cursor)
  some { s with outerKeys, keyStart := ← dropStale? s.cursor s.keyStart }

/-- Forgets the last word that may be a key, unless it has to be one. -/
def dropKey? (s : Scanner) : Option Scanner :=
  if s.keyStart.any (·.required) then none else some { s with keyStart := none }

/-- Remembers the word here as one that may be a key. -/
def saveKey? (s : Scanner) : Option Scanner :=
  if s.keyAllowed then do
    let required := !s.inFlow && s.indents.head? == some s.cursor.column
    let s ← s.dropKey?
    some { s with keyStart := some { position := s.tokens.size, cursor := s.cursor, required } }
  else some s

/-- Says whether a key may begin behind the word here. -/
def allowKey (s : Scanner) (allowed : Bool) : Scanner := { s with keyAllowed := allowed }

/-! ## Blanks and comments -/

/-- Goes on to the next word, over comments too. Behind a line break a key may begin in a block. A
tab does not indent, where a key may begin. -/
def skipGap (flow comment keyAllowed : Bool) (c : Cursor) : Bool × Cursor :=
  match _h : c.rest with
  | [] => (keyAllowed, c)
  | ch :: _ =>
      if isBreak ch then skipGap flow false (keyAllowed || !flow) c.nextLine
      else if comment || ch == '#' then skipGap flow true keyAllowed c.next
      else if ch == ' ' || (ch == '\t' && (flow || !keyAllowed)) ||
          (c.column == 0 && isByteOrderMark ch) then
        skipGap flow false keyAllowed c.next
      else (keyAllowed, c)
termination_by c.rest.length
decreasing_by
  · exact Cursor.nextLine_lt ‹_›
  · exact Cursor.next_lt ‹_›
  · exact Cursor.next_lt ‹_›

/-! ## Words -/

/-- A line that begins with a directive or with the mark of a document ends all blocks. -/
def endBlocks? (s : Scanner) : Option Scanner :=
  ((s.closeBlocks fun _ => false).allowKey false).dropKey?

def directiveLine? (s : Scanner) : Option Scanner := do
  let s ← s.endBlocks?
  let (t, c) ← directive? s.cursor.next
  some (s.emitAt t c)

def documentMarker? (s : Scanner) (t : Token) : Option Scanner := do
  let s ← s.endBlocks?
  some (s.emitAt t (s.cursor.advance 3))

def openFlow? (s : Scanner) (t : Token) : Option Scanner := do
  let s ← s.saveKey?
  some { s.emitAt t s.cursor.next with
    outerKeys := s.keyStart :: s.outerKeys, keyStart := none, keyAllowed := true }

def closeFlow? (s : Scanner) (t : Token) : Option Scanner := do
  let s ← s.dropKey?
  let s := match s.outerKeys with
    | [] => s
    | key :: outer => { s with keyStart := key, outerKeys := outer }
  some ((s.emitAt t s.cursor.next).allowKey false)

def flowEntry? (s : Scanner) : Option Scanner := do
  let s ← s.dropKey?
  some ((s.emitAt .flowEntry s.cursor.next).allowKey true)

/-- Opens the block collection to which the sign here belongs, where a sign may stand. -/
def openBlockHere? (s : Scanner) (start : Token) : Option Scanner :=
  if s.inFlow then some s
  else if s.keyAllowed then some (s.openBlock s.cursor.column s.tokens.size start)
  else none

def blockEntry? (s : Scanner) : Option Scanner := do
  let s ← (← s.openBlockHere? .blockSequenceStart).dropKey?
  some ((s.emitAt .blockEntry s.cursor.next).allowKey true)

def explicitKey? (s : Scanner) : Option Scanner := do
  let s ← (← s.openBlockHere? .blockMappingStart).dropKey?
  some ((s.emitAt .key s.cursor.next).allowKey (!s.inFlow))

/-- The colon behind a key, which may be a word that was read before. -/
def value? (s : Scanner) : Option Scanner :=
  match s.keyStart with
  | some k =>
      let s := { s.insert k.position .key with keyStart := none }
      let s := s.openBlock k.cursor.column k.position .blockMappingStart
      some ((s.emitAt .value s.cursor.next).allowKey false)
  | none => do
      let s ← s.openBlockHere? .blockMappingStart
      some ((s.emitAt .value s.cursor.next).allowKey (!s.inFlow))

/-- A word that may be a key or stand before one. -/
def word? (s : Scanner) (read : Cursor → Option (Token × Cursor)) : Option Scanner := do
  let s ← s.saveKey?
  let (t, c) ← read s.cursor
  some ((s.emitAt t c).allowKey false)

def anchor? (s : Scanner) : Option Scanner := do
  let (name, _) ← anchorName? s.cursor.next
  let number := s.anchors.length
  { s with anchors := s.anchors.add name }.word? fun c => do
    some (.anchor number, (← anchorName? c.next).2)

/-- An alias for the last anchor of its name. -/
def alias? (s : Scanner) : Option Scanner :=
  s.word? fun c => do
    let (name, c) ← anchorName? c.next
    some (.alias (← s.anchors.lookup name), c)

def block? (s : Scanner) (style : Style) : Option Scanner := do
  let s ← s.dropKey?
  let (text, c) ← blockScalar? (style == .folded) s.outer s.cursor.next
  some ((s.emitAt (.scalar text style) c).allowKey true)

/-- A plain scalar; if its last line ends, a key may follow. -/
def plainWord? (s : Scanner) : Option Scanner := do
  let s ← s.saveKey?
  let (g, c) ← plain? s.inFlow s.outer false {} s.cursor
  some ((s.emitAt (.scalar g.toString .plain) c).allowKey g.broken)

def quotedWord? (single : Bool) (c : Cursor) : Option (Token × Cursor) := do
  let (text, c) ← quoted? single {} c.next
  some (.scalar text (if single then .singleQuoted else .doubleQuoted), c)

/-- Characters with which no plain scalar begins. -/
def isIndicator (c : Char) : Bool :=
  isFlowIndicator c || ['-', '?', ':', '#', '&', '*', '!', '|', '>', '\'', '"', '%', '@',
    Char.ofNat 96].contains c

/-- Whether a plain scalar may begin with a character that others follow. -/
def startsPlain (s : Scanner) (ch : Char) (after : List Char) : Bool :=
  (!isIndicator ch && !isBlank ch) || (ch == '-' && !after.head?.any isBlank) ||
    (!s.inFlow && (ch == '?' || ch == ':') && !endsWord after)

/-- Reads the word that begins here with a character. -/
def readWord? (s : Scanner) (ch : Char) (after : List Char) : Option Scanner :=
  let ends := s.inFlow || endsWord after
  if s.cursor.column == 0 && ch == '%' then s.directiveLine?
  else if s.cursor.atMarker then
    s.documentMarker? (if ch == '-' then .documentStart else .documentEnd)
  else if ch == '[' then s.openFlow? .flowSequenceStart
  else if ch == '\x7b' then s.openFlow? .flowMappingStart
  else if ch == ']' then s.closeFlow? .flowSequenceEnd
  else if ch == '\x7d' then s.closeFlow? .flowMappingEnd
  else if ch == ',' then s.flowEntry?
  else if ch == '-' && endsWord after then s.blockEntry?
  else if ch == '?' && ends then s.explicitKey?
  else if ch == ':' && ends then s.value?
  else if ch == '*' then s.alias?
  else if ch == '&' then s.anchor?
  else if ch == '!' then s.word? (tag? s.inFlow)
  else if ch == '|' && !s.inFlow then s.block? .literal
  else if ch == '>' && !s.inFlow then s.block? .folded
  else if ch == '\'' then s.word? (quotedWord? true)
  else if ch == '"' then s.word? (quotedWord? false)
  else if s.startsPlain ch after then s.plainWord?
  else none

/-- Reads words up to the end of the text. Each has at least one character, so fuel for each
character suffices. -/
def run? : Nat → Scanner → Option Scanner
  | 0, _ => none
  | fuel + 1, s => do
      let (keyAllowed, cursor) := skipGap s.inFlow false s.keyAllowed s.cursor
      let s ← dropStaleKeys? { s with cursor, keyAllowed }
      let s := s.closeBlocks fun column => decide (column ≤ s.cursor.column)
      match s.cursor.rest with
      | [] => s.endBlocks?
      | ch :: after => run? fuel (← s.readWord? ch after)

end Scanner

/-- The tokens of a text. -/
def tokens? (text : String) : Option (List Token) := do
  let cs := text.toList
  if cs.all isAllowed then
    let s ← Scanner.run? (cs.length + 1) { cursor := { rest := cs } }
    some s.tokens.toList
  else none

end Statechart.Yaml
