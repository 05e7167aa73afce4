import Statechart.Json.Basic
import Statechart.Decimal.Shortest

/-!
# Number text

Integers are written in full and doubles by their shortest decimal, which always has a point or an
exponent. Reading keeps up to 64 bits of the written digits and drops the others, then scales the
nearest double of these digits by one power of ten: digits that fit 53 bits and powers up to 10^22
are read exactly, anything longer may end one double away from the nearest one.
-/

namespace Statechart.Number

/-! ## Writing -/

/-- Doubles from 0.00001 up to below 10^16 are written without an exponent. -/
def layout : Decimal.Layout where
  least := -5
  greatest := 15

/-- The text of a finite double. -/
def floatText (x : Float) : String :=
  let bits := x.toBits
  let sign := if bits >>> 63 = 1 then "-" else ""
  match Decimal.shortest? (bits &&& 0x7FFFFFFFFFFFFFFF) with
  | some d => if d.digits = 0 then sign ++ "0.0" else sign ++ d.text layout
  | none => sign ++ "0.0"

def text : Number → String
  | .int n => toString n
  | .float x => floatText x

/-! ## Scaling -/

/-- The nearest double of a power of ten. -/
def powerOfTen (n : Nat) : Float := Float.ofScientific 1 false n

/-- Divides by 10^308 until the exponent is within the range of a double. -/
def scaleDown : Nat → Float → Int → Float
  | 0, x, _ => x
  | fuel + 1, x, exponent =>
      if -308 ≤ exponent then x / powerOfTen exponent.natAbs
      else if x == 0.0 then x
      else scaleDown fuel (x / powerOfTen 308) (exponent + 308)

/-- `digits * 10 ^ exponent`, rounded once for the digits and once for each scaling. Nothing if
the result is not finite. -/
def scale? (digits : Nat) (exponent : Int) : Option Float :=
  let x := Float.ofNat digits
  if exponent < 0 then
    some (scaleDown (exponent.natAbs / 308 + 2) x exponent)
  else if exponent ≤ 308 then
    let y := x * powerOfTen exponent.toNat
    if y.isInf then none else some y
  else if x == 0.0 then some x
  else none

/-! ## Reading -/

/-- The greatest digits that are kept. -/
def maxDigits : Nat := UInt64.size - 1

def digitValue (c : Char) : Nat := c.toNat - '0'.toNat

/-- Appends digits while they fit; gives the digits kept and how many were appended. -/
def absorb (kept count : Nat) : List Char → Nat × Nat
  | [] => (kept, count)
  | c :: rest =>
      let next := kept * 10 + digitValue c
      if next ≤ maxDigits then absorb next (count + 1) rest else (kept, count)

/-- The value of an exponent's digits, if it fits 31 bits. -/
def exponentValue? : Nat → List Char → Option Nat
  | value, [] => some value
  | value, c :: rest =>
      let next := value * 10 + digitValue c
      if next < UInt32.size / 2 then exponentValue? next rest else none

/-- Keeps an exponent within 32 bits. -/
def saturate (exponent : Int) : Int := max (-2147483648) (min 2147483647 exponent)

def signed (negative : Bool) (x : Float) : Float := if negative then -x else x

/-- A double from its digits and a written exponent, if there is one. -/
def readFloat? (negative : Bool) (digits : Nat) (shift : Int) :
    Option (Bool × List Char) → Option Float
  | none => (scale? digits shift).map (signed negative)
  | some (down, written) =>
      match exponentValue? 0 written with
      | some e =>
          let e : Int := if down then -e else e
          (scale? digits (saturate (shift + e))).map (signed negative)
      | none =>
          if digits ≠ 0 ∧ ¬ down then none else some (signed negative 0.0)

/-- A number from its parts: sign, digits before the point, digits after it, exponent. -/
def read? (negative : Bool) (whole : List Char) (fraction : Option (List Char))
    (exponent : Option (Bool × List Char)) : Option Number :=
  let (kept, count) := absorb 0 0 whole
  let dropped := whole.length - count
  match fraction, exponent with
  | none, none =>
      if dropped ≠ 0 then
        (readFloat? negative kept dropped none).map .float
      else if ¬ negative then some (.int kept)
      -- No integer is a negative zero, and none is below -2^63.
      else if kept = 0 ∨ UInt64.size / 2 < kept then some (.float (-(Float.ofNat kept)))
      else some (.int (-kept))
  | none, some e => (readFloat? negative kept dropped (some e)).map .float
  | some digits, e =>
      let (kept, places) := absorb kept 0 digits
      (readFloat? negative kept ((dropped : Int) - places) e).map .float

end Statechart.Number
