/-!
# Shortest decimals

`shortest?` gives the decimal with the fewest digits among those that a double is the nearest
double of; among those with equally few digits the one closest to the double, and of two equally
close ones the even one. `layout` writes such a decimal, positionally or with an exponent.
-/

namespace Statechart

/-- The decimal `digits * 10 ^ exponent`. -/
structure Decimal where
  digits : Nat
  exponent : Int
deriving DecidableEq

namespace Decimal

/-- The size of a positive double, `significand * 2 ^ exponent`; `evenGap` is false when the next
smaller double is only half as far away as the next larger one. -/
structure Binary where
  significand : Nat
  exponent : Int
  evenGap : Bool
deriving DecidableEq

/-- Splits the bits of a finite double, sign left out. -/
def Binary.ofBits (bits : UInt64) : Binary :=
  let field : Nat := (bits.toNat / 0x10000000000000) % 0x800
  let fraction : Nat := bits.toNat % 0x10000000000000
  if field = 0 then
    -- Subnormal doubles have no hidden bit and are all equally far apart.
    { significand := fraction, exponent := -1074, evenGap := true }
  else
    { significand := fraction + 0x10000000000000, exponent := (field : Int) - 1075
      evenGap := fraction ≠ 0 || field == 1 }

/-! ## Comparing quarters of a binary unit with a decimal grid -/

/-- Factors that bring `a * 2 ^ two` and `b * 10 ^ ten` to whole numbers of one size. -/
def scales (two ten : Int) : Nat × Nat :=
  (Nat.pow 2 two.toNat * Nat.pow 10 (-ten).toNat, Nat.pow 2 (-two).toNat * Nat.pow 10 ten.toNat)

namespace Binary

/-- Four times the significand; the unit is a quarter of the binary unit. -/
def quarters (b : Binary) : Nat := 4 * b.significand

/-- The lower end of the reals that round to the double, in quarters. -/
def lower (b : Binary) : Nat := if b.evenGap then b.quarters - 2 else b.quarters - 1

/-- The upper end of the reals that round to the double, in quarters. -/
def upper (b : Binary) : Nat := b.quarters + 2

/-- Whether `digits * 10 ^ ten` rounds to the double; the ends do if the significand is even. -/
def covers (b : Binary) (digits : Nat) (ten : Int) : Bool :=
  let (f, g) := scales (b.exponent - 2) ten
  if b.significand % 2 = 0 then
    decide (b.lower * f ≤ digits * g) && decide (digits * g ≤ b.upper * f)
  else
    decide (b.lower * f < digits * g) && decide (digits * g < b.upper * f)

/-- The better of the two grid points beside the double, on the grid of step `10 ^ ten`. -/
def onGrid? (b : Binary) (ten : Int) : Option Nat :=
  let (f, g) := scales (b.exponent - 2) ten
  let below := b.quarters * f / g
  let gapBelow := b.quarters * f - below * g
  let gapAbove := (below + 1) * g - b.quarters * f
  match b.covers below ten, b.covers (below + 1) ten with
  | true, false => some below
  | false, true => some (below + 1)
  | false, false => none
  | true, true =>
      if gapBelow < gapAbove then some below
      else if gapAbove < gapBelow then some (below + 1)
      else if below % 2 = 0 then some below else some (below + 1)

/-- The least `n ≤ fuel` with `num * 10 ^ n ≥ den`, counted from `start`. -/
def raise (num den : Nat) : Nat → Nat → Nat
  | 0, start => start
  | fuel + 1, start =>
      if num * Nat.pow 10 start ≥ den then start else raise num den fuel (start + 1)

/-- The exponent of the leading decimal digit. No double is smaller than 10^-324. -/
def magnitude (b : Binary) : Int :=
  let num := b.significand * Nat.pow 2 b.exponent.toNat
  let den := Nat.pow 2 (-b.exponent).toNat
  if num ≥ den then ((Nat.toDigits 10 (num / den)).length : Int) - 1
  else -(raise num den 330 0 : Int)

/-- Tries ever finer grids, `count` more of them, beginning with the step `10 ^ ten`. -/
def search (b : Binary) : Nat → Int → Option Decimal
  | 0, _ => none
  | count + 1, ten =>
      match b.onGrid? ten with
      | some digits => some { digits, exponent := ten }
      | none => search b count (ten - 1)

end Binary

/-- Takes zeros off the end, at most `fuel` of them. -/
def strip : Nat → Decimal → Decimal
  | 0, d => d
  | fuel + 1, d =>
      if d.digits ≠ 0 ∧ d.digits % 10 = 0 then
        strip fuel { digits := d.digits / 10, exponent := d.exponent + 1 }
      else d

/-- The shortest decimal of a positive finite double. Seventeen digits always suffice. -/
def shortest? (bits : UInt64) : Option Decimal :=
  let b := Binary.ofBits bits
  (b.search 18 b.magnitude).map (strip 20)

/-! ## Writing -/

/-- Where positional notation ends: the least and the greatest exponent of a leading digit that is
still written without an exponent part. -/
structure Layout where
  least : Int
  greatest : Int
deriving DecidableEq

/-- Writes a decimal with a point or an exponent, so that it never looks like an integer. An
exponent has its sign, and no more digits than it needs. -/
def text (layout : Layout) (d : Decimal) : String :=
  let digits := Nat.toDigits 10 d.digits
  let lead : Int := digits.length - 1 + d.exponent
  if layout.least ≤ lead ∧ lead ≤ layout.greatest then
    if 0 ≤ d.exponent then
      String.ofList (digits ++ List.replicate d.exponent.toNat '0' ++ ['.', '0'])
    else if 0 ≤ lead then
      let whole := lead.toNat + 1
      String.ofList (digits.take whole ++ '.' :: digits.drop whole)
    else
      String.ofList ('0' :: '.' :: List.replicate ((-lead).toNat - 1) '0' ++ digits)
  else
    let mantissa := match digits with
      | [] => []
      | [d] => [d]
      | d :: rest => d :: '.' :: rest
    let sign := if lead < 0 then '-' else '+'
    String.ofList (mantissa ++ 'e' :: sign :: Nat.toDigits 10 lead.natAbs)

end Decimal

end Statechart
