import Statechart.Json.Number

/-!
# Writing JSON text

`Json.text` writes a value without blanks and `Json.prettyText` with two blanks for each level.
Characters below U+0020, quotes and backslashes are escaped and nothing else is.
-/

namespace Statechart.Json

/-! ## Strings -/

/-- The lower-case hexadecimal digit of a number below sixteen. -/
def hexChar (n : Nat) : Char :=
  if n < 10 then Char.ofNat (n + '0'.toNat) else Char.ofNat (n - 10 + 'a'.toNat)

/-- A character as it stands inside quotes. -/
def escape (c : Char) : List Char :=
  if c = '"' then ['\\', '"']
  else if c = '\\' then ['\\', '\\']
  else if c = '\n' then ['\\', 'n']
  else if c = '\r' then ['\\', 'r']
  else if c = '\t' then ['\\', 't']
  else if c = '\x08' then ['\\', 'b']
  else if c = '\x0c' then ['\\', 'f']
  else if c.toNat < 0x20 then ['\\', 'u', '0', '0', hexChar (c.toNat / 16), hexChar (c.toNat % 16)]
  else [c]

/-- A string in quotes. -/
def quote (s : String) : String :=
  String.ofList ('"' :: s.toList.flatMap escape ++ ['"'])

/-! ## Values -/

/-- Puts a separator between texts. -/
def join (separator : String) : List String → String
  | [] => ""
  | [s] => s
  | s :: rest => s ++ separator ++ join separator rest

mutual

/-- The text without blanks. -/
def text : Json → String
  | .null => "null"
  | .bool true => "true"
  | .bool false => "false"
  | .num n => n.text
  | .str s => quote s
  | .arr items => "[" ++ join "," (itemTexts items) ++ "]"
  | .obj fields => "\x7b" ++ join "," (fieldTexts fields) ++ "\x7d"

def itemTexts : List Json → List String
  | [] => []
  | j :: js => text j :: itemTexts js

def fieldTexts : List (String × Json) → List String
  | [] => []
  | (k, j) :: js => (quote k ++ ":" ++ text j) :: fieldTexts js

end

/-- A line break and the blanks of a level. -/
def newline (level : Nat) : String := "\n" ++ String.ofList (List.replicate (2 * level) ' ')

mutual

/-- The text over several lines, for a value that stands at `level`. -/
def prettyAt (level : Nat) : Json → String
  | .arr [] => "[]"
  | .arr items =>
      "[" ++ newline (level + 1)
        ++ join ("," ++ newline (level + 1)) (prettyItems (level + 1) items)
        ++ newline level ++ "]"
  | .obj [] => "\x7b\x7d"
  | .obj fields =>
      "\x7b" ++ newline (level + 1)
        ++ join ("," ++ newline (level + 1)) (prettyFields (level + 1) fields)
        ++ newline level ++ "\x7d"
  | .null => text .null
  | .bool b => text (.bool b)
  | .num n => text (.num n)
  | .str s => text (.str s)

def prettyItems (level : Nat) : List Json → List String
  | [] => []
  | j :: js => prettyAt level j :: prettyItems level js

def prettyFields (level : Nat) : List (String × Json) → List String
  | [] => []
  | (k, j) :: js => (quote k ++ ": " ++ prettyAt level j) :: prettyFields level js

end

/-- The text over several lines. -/
def prettyText (j : Json) : String := prettyAt 0 j

end Statechart.Json
