import LadderLogic.Number.Binary64

/-! The shortest decimal text that reads back as a given binary64 number. -/
namespace LadderLogic.Binary64

/-- The reals that round to a number, as three numerators over one denominator: the lower end, the number
itself and the upper end. -/
structure Neighbourhood where
  lower : Nat
  value : Nat
  upper : Nat
  den : Nat
  /-- Both ends round to the number as well. -/
  closed : Bool

/-- Half way to the next number on either side. Below a power of two the numbers lie twice as dense. -/
def neighbourhood (x : Binary64) : Neighbourhood :=
  let m := 4 * x.significand
  let below := if x.significand = leadingBit ∧ leastExponent < x.exponent then 1 else 2
  let scale := (x.exponent - 2).toNat
  { lower := (m - below) <<< scale
    value := m <<< scale
    upper := (m + 2) <<< scale
    den := 1 <<< (2 - x.exponent).toNat
    closed := x.significand % 2 == 0 }

/-- Whether `num / den` lies in the neighbourhood. -/
def Neighbourhood.contains (b : Neighbourhood) (num den : Nat) : Bool :=
  if b.closed then b.lower * den ≤ num * b.den && num * b.den ≤ b.upper * den
  else b.lower * den < num * b.den && num * b.den < b.upper * den

/-- The distance of `num / den` from the value, over the product of the denominators. -/
def Neighbourhood.distance (b : Neighbourhood) (num den : Nat) : Nat :=
  let x := num * b.den
  let y := b.value * den
  (x - y) + (y - x)

/-- A decimal number `digits * 10 ^ tens`. -/
structure Decimal where
  digits : Nat
  tens : Int
deriving DecidableEq

def Decimal.ratio (d : Decimal) : Nat × Nat :=
  (d.digits * Nat.pow 10 d.tens.toNat, Nat.pow 10 (-d.tens).toNat)

/-- The position of the first digit: the greatest `p` with `10 ^ p` at most the value. -/
def Neighbourhood.firstPlace (b : Neighbourhood) : Int :=
  ((Nat.toDigits 10 (b.value * Nat.pow 10 350 / b.den)).length : Int) - 351

/-- The neighbour of the value on the grid of multiples of `10 ^ tens` that reads back, the nearer of two. -/
def Neighbourhood.onGrid (b : Neighbourhood) (tens : Int) : Option Decimal :=
  let floor := b.value * Nat.pow 10 (-tens).toNat / (b.den * Nat.pow 10 tens.toNat)
  let lo : Decimal := ⟨floor, tens⟩
  let hi : Decimal := ⟨floor + 1, tens⟩
  let fits (d : Decimal) : Bool := b.contains d.ratio.1 d.ratio.2
  let off (d : Decimal) : Nat := b.distance d.ratio.1 d.ratio.2
  match fits lo, fits hi with
  | true, true =>
    if off lo < off hi then some lo
    else if off hi < off lo then some hi
    else if floor % 2 = 0 then some lo else some hi
  | true, false => some lo
  | false, true => some hi
  | false, false => none

/-- Grids of one digit, two digits and so on, until one has a hit. -/
def Neighbourhood.search (b : Neighbourhood) (place : Int) : Nat → Decimal
  | 0 => (b.onGrid place).getD ⟨0, 0⟩
  | more + 1 => match b.onGrid place with
    | some d => d
    | none => b.search (place - 1) more

/-- The same number without zeros at the end of its digits. -/
def Decimal.stripped (d : Decimal) : Nat → Decimal
  | 0 => d
  | more + 1 => if d.digits % 10 = 0 ∧ d.digits ≠ 0 then
      Decimal.stripped ⟨d.digits / 10, d.tens + 1⟩ more
    else d

/-- The decimal number with the fewest digits that reads back, the nearest of those. -/
def shortest (x : Binary64) : Decimal :=
  let b := x.neighbourhood
  (b.search b.firstPlace 17).stripped 17

private def zeros (n : Nat) : String :=
  String.ofList (List.replicate n '0')

/-- Positional notation when the decimal point falls at most sixteen digits to the right of the first digit or four
zeros to its left, else one digit before the point and a signed exponent. A point is always shown in
positional notation. -/
def layout (d : Decimal) : String :=
  let ds := toString d.digits
  let point : Int := ds.length + d.tens
  if 0 ≤ d.tens ∧ point ≤ 16 then ds ++ zeros d.tens.toNat ++ ".0"
  else if 0 < point ∧ point ≤ 16 then
    String.ofList (ds.toList.take point.toNat) ++ "." ++ String.ofList (ds.toList.drop point.toNat)
  else if -5 < point ∧ point ≤ 0 then "0." ++ zeros (-point).toNat ++ ds
  else
    let first := String.ofList (ds.toList.take 1)
    let rest := if ds.length = 1 then "" else "." ++ String.ofList (ds.toList.drop 1)
    let sign := if point - 1 < 0 then "-" else "+"
    first ++ rest ++ "e" ++ sign ++ toString (point - 1).natAbs

/-- The text of a number. -/
def render (x : Binary64) : String :=
  (if x.negative then "-" else "") ++ (if x.isZero then "0.0" else layout x.shortest)

end LadderLogic.Binary64
