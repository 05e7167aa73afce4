import Statechart.Json.Number

/-!
# Reading JSON text

`Json.parse?` reads one document and keeps every written field, also a repeated one;
`Json.ofText?` is the value that the document stands for. Arrays and objects may be nested 127
deep. An object may end after a value only, a string holds no bare control character, and an escape
for half of a surrogate pair needs the other half.
-/

namespace Statechart.Json

/-! ## Lexical parts -/

def isBlank (c : Char) : Bool := c == ' ' || c == '\n' || c == '\t' || c == '\r'

def skipBlanks (cs : List Char) : List Char := cs.dropWhile isBlank

/-- Takes a fixed word off the front. -/
def expect? : List Char → List Char → Option (List Char)
  | [], cs => some cs
  | w :: ws, c :: cs => if w = c then expect? ws cs else none
  | _ :: _, [] => none

def hexDigit? (c : Char) : Option Nat :=
  if '0' ≤ c ∧ c ≤ '9' then some (c.toNat - '0'.toNat)
  else if 'a' ≤ c ∧ c ≤ 'f' then some (c.toNat - 'a'.toNat + 10)
  else if 'A' ≤ c ∧ c ≤ 'F' then some (c.toNat - 'A'.toNat + 10)
  else none

/-- Four hexadecimal digits. -/
def hexUnit? : List Char → Option (Nat × List Char)
  | a :: b :: c :: d :: rest => do
      let a ← hexDigit? a
      let b ← hexDigit? b
      let c ← hexDigit? c
      let d ← hexDigit? d
      some (((a * 16 + b) * 16 + c) * 16 + d, rest)
  | _ => none

/-- The character of an escape that begins after its `u`. -/
def unicodeEscape? (cs : List Char) : Option (Char × List Char) := do
  let (high, rest) ← hexUnit? cs
  -- The second half of a pair cannot come first, and a first half needs a second one.
  if 0xDC00 ≤ high ∧ high < 0xE000 then none
  else if 0xD800 ≤ high ∧ high < 0xDC00 then
    let rest ← expect? ['\\', 'u'] rest
    let (low, rest) ← hexUnit? rest
    if 0xDC00 ≤ low ∧ low < 0xE000 then
      some (Char.ofNat (0x10000 + (high - 0xD800) * 0x400 + (low - 0xDC00)), rest)
    else none
  else some (Char.ofNat high, rest)

/-- The character that a short escape stands for. -/
def shortEscape? : Char → Option Char
  | '"' => some '"'
  | '\\' => some '\\'
  | '/' => some '/'
  | 'b' => some '\x08'
  | 'f' => some '\x0c'
  | 'n' => some '\n'
  | 'r' => some '\r'
  | 't' => some '\t'
  | _ => none

/-- The rest of a string after its opening quote; `done` holds the characters read, last first. -/
def stringBody? : Nat → List Char → List Char → Option (String × List Char)
  | 0, _, _ => none
  | _ + 1, _, [] => none
  | fuel + 1, done, c :: cs =>
      if c = '"' then some (String.ofList done.reverse, cs)
      else if c = '\\' then
        match cs with
        | 'u' :: rest => do
            let (c, rest) ← unicodeEscape? rest
            stringBody? fuel (c :: done) rest
        | e :: rest => do
            let c ← shortEscape? e
            stringBody? fuel (c :: done) rest
        | [] => none
      else if c.toNat < 0x20 then none
      else stringBody? fuel (c :: done) cs

/-- The digits at the front and what follows them. -/
def spanDigits (cs : List Char) : List Char × List Char :=
  (cs.takeWhile Char.isDigit, cs.dropWhile Char.isDigit)

/-- The digits after a point, of which there is at least one. -/
def fraction? : List Char → Option (Option (List Char) × List Char)
  | '.' :: cs =>
      match spanDigits cs with
      | ([], _) => none
      | (digits, rest) => some (some digits, rest)
  | cs => some (none, cs)

/-- The exponent, true if it is negative, with its digits. -/
def exponent? : List Char → Option (Option (Bool × List Char) × List Char)
  | c :: cs =>
      if c = 'e' ∨ c = 'E' then
        let (down, cs) := match cs with
          | '+' :: rest => (false, rest)
          | '-' :: rest => (true, rest)
          | rest => (false, rest)
        match spanDigits cs with
        | ([], _) => none
        | (digits, rest) => some (some (down, digits), rest)
      else some (none, c :: cs)
  | [] => some (none, [])

/-- The parts of a number as they are written. -/
structure NumberText where
  negative : Bool
  whole : List Char
  fraction : Option (List Char)
  exponent : Option (Bool × List Char)

/-- The text of a number; a zero begins no longer run of digits. -/
def numberText? (cs : List Char) : Option (NumberText × List Char) := do
  let (negative, cs) := match cs with
    | '-' :: rest => (true, rest)
    | rest => (false, rest)
  let (whole, cs) := spanDigits cs
  if whole.isEmpty ∨ (whole.head? = some '0' ∧ whole.length ≠ 1) then none
  else
    let (fraction, cs) ← fraction? cs
    let (exponent, cs) ← exponent? cs
    some ({ negative, whole, fraction, exponent }, cs)

/-- A number, which is not too great for a double. -/
def number? (cs : List Char) : Option (Number × List Char) := do
  let (t, cs) ← numberText? cs
  let n ← Number.read? t.negative t.whole t.fraction t.exponent
  some (n, cs)

/-! ## Values -/

mutual

/-- A value, blanks before it included, with at most `depth` levels inside. -/
def value? : Nat → Nat → List Char → Option (Json × List Char)
  | 0, _, _ => none
  | fuel + 1, depth, cs =>
      match skipBlanks cs with
      | 'n' :: rest => (expect? ['u', 'l', 'l'] rest).map (.null, ·)
      | 't' :: rest => (expect? ['r', 'u', 'e'] rest).map (.bool true, ·)
      | 'f' :: rest => (expect? ['a', 'l', 's', 'e'] rest).map (.bool false, ·)
      | '"' :: rest => (stringBody? (rest.length + 1) [] rest).map fun (s, r) => (.str s, r)
      | '[' :: rest =>
          match depth with
          | 0 => none
          | depth + 1 =>
              match skipBlanks rest with
              | ']' :: rest => some (.arr [], rest)
              | rest => (items? fuel depth [] rest).map fun (js, r) => (.arr js, r)
      | '\x7b' :: rest =>
          match depth with
          | 0 => none
          | depth + 1 =>
              match skipBlanks rest with
              | '\x7d' :: rest => some (.obj [], rest)
              | rest => (fields? fuel depth [] rest).map fun (js, r) => (.obj js, r)
      | rest => (number? rest).map fun (n, r) => (.num n, r)

/-- The items from the next one up to the closing bracket. -/
def items? : Nat → Nat → List Json → List Char → Option (List Json × List Char)
  | 0, _, _, _ => none
  | fuel + 1, depth, done, cs => do
      let (j, rest) ← value? fuel depth cs
      match skipBlanks rest with
      | ',' :: rest => items? fuel depth (j :: done) rest
      | ']' :: rest => some ((j :: done).reverse, rest)
      | _ => none

/-- The fields from the next one up to the closing brace. -/
def fields? : Nat → Nat → List (String × Json) → List Char →
    Option (List (String × Json) × List Char)
  | 0, _, _, _ => none
  | fuel + 1, depth, done, cs =>
      match skipBlanks cs with
      | '"' :: rest => do
          let (key, rest) ← stringBody? (rest.length + 1) [] rest
          let rest ← expect? [':'] (skipBlanks rest)
          let (j, rest) ← value? fuel depth rest
          match skipBlanks rest with
          | ',' :: rest => fields? fuel depth ((key, j) :: done) rest
          | '\x7d' :: rest => some (((key, j) :: done).reverse, rest)
          | _ => none
      | _ => none

end

/-- How deeply arrays and objects may be nested. -/
def maxDepth : Nat := 127

/-- Reads a document as it is written. Every nested call reads at least one character for each
two of its calls, so the fuel suffices. -/
def parse? (text : String) : Option Json :=
  let cs := text.toList
  match value? (2 * cs.length + 2) maxDepth cs with
  | some (j, rest) => if (skipBlanks rest).isEmpty then some j else none
  | none => none

/-- Reads the value of a document: of a repeated field the last value, at the first place. -/
def ofText? (text : String) : Option Json := (parse? text).map dedup

end Statechart.Json
