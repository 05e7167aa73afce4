import Statechart.Yaml.Cursor
import Statechart.Yaml.Token

/-!
# Anchors, tags and directives

Words that begin with `&`, `*` or `!`, and lines that begin with `%`.
-/

namespace Statechart.Yaml

/-! ## Anchors -/

/-- Whether the name of an anchor may end here. -/
def endsAnchor (cs : List Char) : Bool :=
  endsWord cs || cs.head?.any ['?', ':', ',', ']', '\x7d', '%', '@', Char.ofNat 96].contains

/-- The name of an anchor, after the sign that begins it. -/
def anchorName? (c : Cursor) : Option (String × Cursor) :=
  let (name, c) := c.takeWhile isWordChar
  if name.isEmpty || !endsAnchor c.rest then none else some (String.ofList name, c)

/-! ## Tags -/

/-- Characters that stand for themselves in a tag. -/
def isTagChar (c : Char) : Bool :=
  isWordChar c || [';', '/', '?', ':', '@', '&', '=', '+', '$', '.', '!', '~', '*', '\'', '(',
    ')'].contains c

/-- A percent sign and the two hexadecimal digits of a byte. -/
def escapedByte? : List Char → Option UInt8
  | '%' :: high :: low :: _ => do
      some (UInt8.ofNat ((← hexValue? high) * 16 + (← hexValue? low)))
  | _ => none

/-- How many bytes follow the first byte of a character in UTF-8. -/
def trailingBytes? (b : UInt8) : Option Nat :=
  if b < 0x80 then some 0
  else if b < 0xC0 then none
  else if b < 0xE0 then some 1
  else if b < 0xF0 then some 2
  else if b < 0xF8 then some 3
  else none

/-- Reads on in a tag. `due` bytes are to follow, in escapes, to complete a character; `listed`
tells that a tag may hold commas and square brackets. -/
def tagText? (listed : Bool) (due : Nat) (done : TagText) (c : Cursor) :
    Option (TagText × Cursor) :=
  match _h : c.rest with
  | [] => if due = 0 then some (done.reverse, c) else none
  | ch :: _ =>
      if ch == '%' then
        match escapedByte? c.rest with
        | none => none
        | some b =>
            let due? := if due = 0 then trailingBytes? b
              else if 0x80 ≤ b ∧ b < 0xC0 then some (due - 1) else none
            match due? with
            | some due => tagText? listed due (b :: done) (c.advance 3)
            | none => none
      else if due ≠ 0 then none
      else if isTagChar ch || (listed && [',', '[', ']'].contains ch) then
        tagText? listed 0 (UInt8.ofNat ch.toNat :: done) c.next
      else some (done.reverse, c)
termination_by c.rest.length
decreasing_by
  · exact Cursor.advance_lt (by decide) ‹_›
  · exact Cursor.next_lt ‹_›

/-- A tag or a part of one that is not empty. Of a tag with a zero byte only what stands before it
counts. -/
def tagPart? (listed : Bool) (c : Cursor) : Option (TagText × Cursor) := do
  let (text, c) ← tagText? listed 0 [] c
  if text.isEmpty then none else some (text.takeWhile (· ≠ 0), c)

/-- Takes an exclamation mark, the name after it, and the mark that ends the name, if it is there.
Tells whether it is. -/
def handle? (c : Cursor) : Option (String × Bool × Cursor) :=
  if c.sees (· == '!') then
    let (name, c) := c.next.takeWhile isWordChar
    if c.sees (· == '!') then some (String.ofList ('!' :: name ++ ['!']), true, c.next)
    else some (String.ofList ('!' :: name), false, c)
  else none

/-- A tag without a name to be replaced: what follows one exclamation mark, which may be nothing. -/
def localTag? (c : Cursor) : Option (Token × Cursor) := do
  let (text, c) ← tagText? false 0 [] c
  match text.takeWhile (· ≠ 0) with
  | [] => some (.tag none "!".toUTF8.toList, c)
  | suffix => some (.tag (some "!") suffix, c)

/-- A tag in one of its three forms. -/
def tagBody? (c : Cursor) : Option (Token × Cursor) := do
  if c.next.sees (· == '<') then
    let (text, c) ← tagPart? true (c.advance 2)
    if c.sees (· == '>') then some (.tag none text, c.next) else none
  else
    let (handle, named, after) ← handle? c
    if named then
      let (suffix, after) ← tagPart? false after
      some (.tag (some handle) suffix, after)
    else localTag? c.next

/-- A tag, which ends with the word or, in a flow collection, at a comma. -/
def tag? (flow : Bool) (c : Cursor) : Option (Token × Cursor) := do
  let (t, c) ← tagBody? c
  if endsWord c.rest || (flow && c.sees (· == ',')) then some (t, c) else none

/-! ## Directives -/

/-- A number of at most nine digits. -/
def versionNumber? (c : Cursor) : Option (Nat × Cursor) :=
  let (digits, c) := c.takeWhile Char.isDigit
  if digits.isEmpty || 9 < digits.length then none
  else some (digits.foldl (fun n d => n * 10 + (d.toNat - '0'.toNat)) 0, c)

def versionDirective? (c : Cursor) : Option (Token × Cursor) := do
  let (major, c) ← versionNumber? (c.skipWhile isBlank)
  if c.sees (· == '.') then
    let (minor, c) ← versionNumber? c.next
    some (.versionDirective major minor, c)
  else none

def tagDirective? (c : Cursor) : Option (Token × Cursor) := do
  let (handle, named, c) ← handle? (c.skipWhile isBlank)
  if (named || handle == "!") && c.sees isBlank then
    let (start, c) ← tagPart? true (c.skipWhile isBlank)
    if endsWord c.rest then some (.tagDirective handle start, c) else none
  else none

/-- A directive, after the sign that begins it, with the rest of its line. -/
def directive? (c : Cursor) : Option (Token × Cursor) := do
  let (name, c) := c.takeWhile isWordChar
  if !endsWord c.rest then none
  let (t, c) ← match String.ofList name with
    | "YAML" => versionDirective? c
    | "TAG" => tagDirective? c
    | _ => none
  some (t, ← c.finishLine?)

end Statechart.Yaml
