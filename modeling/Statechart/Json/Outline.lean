import Statechart.Json.Parser

/-!
# Reading a part of JSON text

An `Outline` tells which fields and items of a document are read. What is passed over has to be JSON
too, but numbers may be too great, escapes may stand for half of a surrogate pair, and there is no
limit to how deeply it is nested.
-/

namespace Statechart.Json

/-! ## Passing over -/

/-- Passes over the rest of a string after its opening quote. -/
def skipString? : List Char → Option (List Char)
  | [] => none
  | '"' :: rest => some rest
  | '\\' :: 'u' :: a :: b :: c :: d :: rest =>
      if [a, b, c, d].all fun digit => (hexDigit? digit).isSome then skipString? rest else none
  | '\\' :: e :: rest => if (shortEscape? e).isSome then skipString? rest else none
  | c :: rest => if c = '\\' ∨ c.toNat < 0x20 then none else skipString? rest

/-- Passes over a value that is neither an array nor an object. -/
def skipScalar? : List Char → Option (List Char)
  | 'n' :: rest => expect? ['u', 'l', 'l'] rest
  | 't' :: rest => expect? ['r', 'u', 'e'] rest
  | 'f' :: rest => expect? ['a', 'l', 's', 'e'] rest
  | '"' :: rest => skipString? rest
  | rest => (numberText? rest).map (·.2)

/-- What comes next in a value that is passed over. -/
inductive Awaited where
  | value
  /-- A key and the value after it. -/
  | entry
  /-- A comma or the end of the innermost array or object. -/
  | more

/-- Passes over a value. `closing` holds the brackets that are still to come, the next one first. -/
def skipNested? : Nat → Awaited → List Char → List Char → Option (List Char)
  | 0, _, _, _ => none
  | fuel + 1, .value, closing, cs =>
      match skipBlanks cs with
      | '[' :: rest =>
          match skipBlanks rest with
          | ']' :: rest => skipNested? fuel .more closing rest
          | rest => skipNested? fuel .value (']' :: closing) rest
      | '\x7b' :: rest =>
          match skipBlanks rest with
          | '\x7d' :: rest => skipNested? fuel .more closing rest
          | rest => skipNested? fuel .entry ('\x7d' :: closing) rest
      | rest =>
          match skipScalar? rest with
          | some rest => skipNested? fuel .more closing rest
          | none => none
  | fuel + 1, .entry, closing, cs =>
      match skipBlanks cs with
      | '"' :: rest =>
          match (skipString? rest).bind fun rest => expect? [':'] (skipBlanks rest) with
          | some rest => skipNested? fuel .value closing rest
          | none => none
      | _ => none
  | _ + 1, .more, [], cs => some cs
  | fuel + 1, .more, bracket :: closing, cs =>
      match skipBlanks cs with
      | ',' :: rest =>
          skipNested? fuel (if bracket = ']' then .value else .entry) (bracket :: closing) rest
      | c :: rest => if c = bracket then skipNested? fuel .more closing rest else none
      | [] => none

/-- Passes over a value. Each character takes two steps at most. -/
def skip? (cs : List Char) : Option (List Char) :=
  skipNested? (2 * cs.length + 2) .value [] cs

/-! ## Outlines -/

/-- How much of a value is read. -/
inductive Extent (P : Type) where
  | nothing
  | all
  /-- A place of the outline, which tells how much is read of its fields and items. -/
  | part (place : P)

structure Outline (P : Type) where
  field : P → String → Extent P
  item : P → Nat → Extent P

variable {P : Type} (o : Outline P)

mutual

/-- A value as far as it is read, blanks before it included, with at most `depth` levels inside. -/
def outlined? : Nat → Nat → Extent P → List Char → Option (Option Json × List Char)
  | 0, _, _, _ => none
  | _ + 1, _, .nothing, cs => (skip? cs).map (none, ·)
  | fuel + 1, depth, .all, cs => (value? fuel depth cs).map fun (j, r) => (some j, r)
  | fuel + 1, depth, .part place, cs =>
      match skipBlanks cs, depth with
      | '[' :: _, 0 => none
      | '[' :: rest, depth + 1 =>
          match skipBlanks rest with
          | ']' :: rest => some (some (.arr []), rest)
          | rest => (outlinedItems? fuel depth place [] rest).map fun (js, r) => (some (.arr js), r)
      | '\x7b' :: _, 0 => none
      | '\x7b' :: rest, depth + 1 =>
          match skipBlanks rest with
          | '\x7d' :: rest => some (some (.obj []), rest)
          | rest =>
              (outlinedFields? fuel depth place [] rest).map fun (js, r) => (some (.obj js), r)
      | rest, _ => (value? fuel depth rest).map fun (j, r) => (some j, r)

/-- The items from the next one up to the closing bracket; those that are not read are `null`. -/
def outlinedItems? : Nat → Nat → P → List Json → List Char → Option (List Json × List Char)
  | 0, _, _, _, _ => none
  | fuel + 1, depth, place, done, cs => do
      let (j, rest) ← outlined? fuel depth (o.item place done.length) cs
      let done := j.getD .null :: done
      match skipBlanks rest with
      | ',' :: rest => outlinedItems? fuel depth place done rest
      | ']' :: rest => some (done.reverse, rest)
      | _ => none

/-- The fields from the next one up to the closing brace, without those that are not read. -/
def outlinedFields? : Nat → Nat → P → List (String × Json) → List Char →
    Option (List (String × Json) × List Char)
  | 0, _, _, _, _ => none
  | fuel + 1, depth, place, done, cs =>
      match skipBlanks cs with
      | '"' :: rest => do
          let (key, rest) ← stringBody? (rest.length + 1) [] rest
          let rest ← expect? [':'] (skipBlanks rest)
          let (j, rest) ← outlined? fuel depth (o.field place key) rest
          let done := (j.map fun j => (key, j)).toList ++ done
          match skipBlanks rest with
          | ',' :: rest => outlinedFields? fuel depth place done rest
          | '\x7d' :: rest => some (done.reverse, rest)
          | _ => none
      | _ => none

end

/-- Reads a document as far as an outline tells, beginning at a place of it. At most three calls are
nested for each character, so the fuel suffices. -/
def parseOutlined? (place : P) (text : String) : Option Json := do
  let cs := text.toList
  let (j, rest) ← outlined? o (3 * cs.length + 3) maxDepth (.part place) cs
  if (skipBlanks rest).isEmpty then j else none

end Statechart.Json
