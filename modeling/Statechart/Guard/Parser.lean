import Statechart.Guard.Expr
import Statechart.Json.Number
import Statechart.Text.Alphanumeric
import Statechart.Text.Blank

/-!
# Reading guard expressions

The grammar, from the loosest to the tightest binding:

* `or`: one or more `and`, with `||` between them;
* `and`: one or more `unary`, with `&&` between them;
* `unary`: `!` and a `unary`, an `or` in parentheses, or a comparison;
* comparison: a field, alone or with `==` or `!=` and a literal, or with `<`, `<=`, `>` or `>=` and
  a number;
* field: `ctx.` or `event.` and names joined by dots;
* literal: `true`, `false`, `null`, a string in double quotes, or a number.

White space may stand between any two of these parts. `Expr.parse` reads a whole text.
-/

namespace Statechart.Guard

/-- Why a text is no guard expression. -/
inductive Fault where
  | empty
  | trailing (rest : String)
  | unclosed
  | noField (rest : String)
  | emptyField
  | unterminated
  | badNumber (text : String)
  | outOfRange (text : String)
deriving DecidableEq

def Fault.message : Fault → String
  | .empty => "empty guard expression"
  | .trailing rest => "unexpected input at '" ++ rest ++ "'"
  | .unclosed => "expected ')'"
  | .noField rest => "expected a 'ctx.' or 'event.' field at '" ++ rest ++ "'"
  | .emptyField => "empty field name"
  | .unterminated => "unterminated string"
  | .badNumber text => "invalid number: '" ++ text ++ "'"
  | .outOfRange text => "number out of range: " ++ text

/-! ## Parts -/

def skipBlanks (cs : List Char) : List Char := cs.dropWhile Text.isBlank

/-- Takes a token off the front, after any white space. -/
def eat? (token : List Char) (cs : List Char) : Option (List Char) :=
  Text.after? token (skipBlanks cs)

/-- The characters of field paths: those of names, and the dot. -/
def isPathChar (c : Char) : Bool := Text.isAlphanumeric c || c == '_' || c == '.'

/-- Whether two neighbouring pieces of a path meet without a name between them. -/
def hasDoubleDot : List Char → Bool
  | '.' :: '.' :: _ => true
  | _ :: rest => hasDoubleDot rest
  | [] => false

/-- A path, which neither is empty, nor ends in a dot, nor has two dots in a row. -/
def path? (cs : List Char) : Except Fault (List String × List Char) :=
  let path := cs.takeWhile isPathChar
  let rest := cs.dropWhile isPathChar
  if path.isEmpty || path.getLast? == some '.' || hasDoubleDot path then .error .emptyField
  else .ok ((Text.splitAt '.' path).map String.ofList, rest)

def field? (cs : List Char) : Except Fault (Field × List Char) :=
  match eat? ['c', 't', 'x', '.'] cs with
  | some rest => do
      let (path, rest) ← path? rest
      .ok ({ scope := .context, path }, rest)
  | none =>
      match eat? ['e', 'v', 'e', 'n', 't', '.'] cs with
      | some rest => do
          let (path, rest) ← path? rest
          .ok ({ scope := .event, path }, rest)
      | none => .error (.noField (String.ofList (skipBlanks cs)))

/-! ## Numbers -/

/-- The text of a number: an optional minus, digits, and an optional point with more digits. -/
def numberText (cs : List Char) : List Char × List Char :=
  let (sign, cs) := match cs with
    | '-' :: rest => (['-'], rest)
    | rest => ([], rest)
  let whole := cs.takeWhile Char.isDigit
  match cs.dropWhile Char.isDigit with
  | '.' :: rest =>
      (sign ++ whole ++ '.' :: rest.takeWhile Char.isDigit, rest.dropWhile Char.isDigit)
  | rest => (sign ++ whole, rest)

def naturalOf (digits : List Char) : Nat :=
  digits.foldl (fun n c => n * 10 + Number.digitValue c) 0

/-- The double nearest to a number's text, which needs a digit before or after the point. -/
def toFloat? (text : List Char) : Option Float :=
  let (negative, cs) := match text with
    | '-' :: rest => (true, rest)
    | rest => (false, rest)
  let whole := cs.takeWhile Char.isDigit
  let fraction := (cs.dropWhile Char.isDigit).drop 1
  if whole.isEmpty && fraction.isEmpty then none
  else
    let x := Float.ofScientific (naturalOf (whole ++ fraction)) true fraction.length
    some (if negative then -x else x)

def number? (cs : List Char) : Except Fault (Float × List Char) :=
  let (text, rest) := numberText (skipBlanks cs)
  match toFloat? text with
  | some x => .ok (x, rest)
  | none => .error (.badNumber (String.ofList text))

/-! ## Literals -/

/-- The rest of a string after its opening quote. A backslash stands for the character after it. -/
def string? (done : List Char) : List Char → Except Fault (String × List Char)
  | [] => .error .unterminated
  | '"' :: rest => .ok (String.ofList done.reverse, rest)
  | '\\' :: c :: rest => string? (c :: done) rest
  | ['\\'] => .error .unterminated
  | c :: rest => string? (c :: done) rest

/-- The text of an infinite number. -/
def infinityText (x : Float) : String := if x < 0.0 then "-inf" else "inf"

def literal? (cs : List Char) : Except Fault (Literal × List Char) :=
  match eat? ['t', 'r', 'u', 'e'] cs with
  | some rest => .ok (.bool true, rest)
  | none =>
  match eat? ['f', 'a', 'l', 's', 'e'] cs with
  | some rest => .ok (.bool false, rest)
  | none =>
  match eat? ['n', 'u', 'l', 'l'] cs with
  | some rest => .ok (.null, rest)
  | none =>
  match eat? ['"'] cs with
  | some rest => do
      let (s, rest) ← string? [] rest
      .ok (.str s, rest)
  | none => do
      let (x, rest) ← number? cs
      if x.isInf then .error (.outOfRange (infinityText x)) else .ok (.num x, rest)

/-! ## Expressions -/

/-- The ordering sign at the front; the longer signs are tried first. -/
def order? (cs : List Char) : Option (Order × List Char) :=
  match eat? ['<', '='] cs with
  | some rest => some (.le, rest)
  | none =>
  match eat? ['>', '='] cs with
  | some rest => some (.ge, rest)
  | none =>
  match eat? ['<'] cs with
  | some rest => some (.lt, rest)
  | none => (eat? ['>'] cs).map (.gt, ·)

def comparison? (cs : List Char) : Except Fault (Expr × List Char) := do
  let (field, rest) ← field? cs
  match eat? ['=', '='] rest with
  | some rest => do
      let (literal, rest) ← literal? rest
      .ok (.eq field literal, rest)
  | none =>
  match eat? ['!', '='] rest with
  | some rest => do
      let (literal, rest) ← literal? rest
      .ok (.ne field literal, rest)
  | none =>
  match order? rest with
  | some (order, rest) => do
      let (bound, rest) ← number? rest
      .ok (.compare field order bound, rest)
  | none => .ok (.truthy field, rest)

/-- Takes a `!` that does not begin a `!=`, after any white space. -/
def negation? (cs : List Char) : Option (List Char) :=
  match skipBlanks cs with
  | '!' :: '=' :: _ => none
  | '!' :: rest => some rest
  | _ => none

mutual

def or? : Nat → List Char → Except Fault (Expr × List Char)
  | 0, _ => .error .unclosed
  | fuel + 1, cs => do
      let (e, rest) ← and? fuel cs
      orTail? fuel e rest

/-- Joins further operands of `||` to the left operand `e`. -/
def orTail? : Nat → Expr → List Char → Except Fault (Expr × List Char)
  | 0, _, _ => .error .unclosed
  | fuel + 1, e, cs =>
      match eat? ['|', '|'] cs with
      | some rest => do
          let (other, rest) ← and? fuel rest
          orTail? fuel (.or e other) rest
      | none => .ok (e, cs)

def and? : Nat → List Char → Except Fault (Expr × List Char)
  | 0, _ => .error .unclosed
  | fuel + 1, cs => do
      let (e, rest) ← unary? fuel cs
      andTail? fuel e rest

/-- Joins further operands of `&&` to the left operand `e`. -/
def andTail? : Nat → Expr → List Char → Except Fault (Expr × List Char)
  | 0, _, _ => .error .unclosed
  | fuel + 1, e, cs =>
      match eat? ['&', '&'] cs with
      | some rest => do
          let (other, rest) ← unary? fuel rest
          andTail? fuel (.and e other) rest
      | none => .ok (e, cs)

def unary? : Nat → List Char → Except Fault (Expr × List Char)
  | 0, _ => .error .unclosed
  | fuel + 1, cs =>
      match negation? cs with
      | some rest => do
          let (e, rest) ← unary? fuel rest
          .ok (.not e, rest)
      | none =>
      match eat? ['('] cs with
      | some rest => do
          let (e, rest) ← or? fuel rest
          match eat? [')'] rest with
          | some rest => .ok (e, rest)
          | none => .error .unclosed
      | none => comparison? cs

end

/-- Reads a whole text. At most four calls are nested for each character, so the fuel suffices. -/
def Expr.parse (text : String) : Except Fault Expr :=
  let cs := text.toList
  if (skipBlanks cs).isEmpty then .error .empty
  else do
    let (e, rest) ← or? (4 * cs.length + 4) cs
    let rest := skipBlanks rest
    if rest.isEmpty then .ok e else .error (.trailing (String.ofList rest))

end Statechart.Guard
