/-! Finite binary64 numbers in exact arithmetic, rounded to nearest with ties to even. -/
namespace LadderLogic

/-- The number `significand * 2 ^ exponent` with a sign of its own, so that zero has two. -/
structure Binary64 where
  negative : Bool
  significand : Nat
  exponent : Int
deriving DecidableEq, Repr

namespace Binary64

/-- `num / den` to the nearest integer, a half to the even one. -/
def roundDiv (num den : Nat) : Nat :=
  let q := num / den
  let r := num % den
  if 2 * r < den then q else if den < 2 * r then q + 1 else q + q % 2

/-- The place value of the first of 53 binary digits. -/
def leadingBit : Nat := 1 <<< 52

def leastExponent : Int := -1074

def greatestExponent : Int := 971

/-- The numerator and denominator of `num / den * 2 ^ shift`. -/
def shifted (num den : Nat) (shift : Int) : Nat × Nat :=
  (num <<< shift.toNat, den <<< (-shift).toNat)

/-- The exponent at which `num / den` has 53 binary digits, or the least exponent if that is larger. -/
def exponentOf (num den : Nat) : Int :=
  let e := (num.log2 : Int) - den.log2 - 52
  let (n, d) := shifted num den (-e)
  let e := if n / d < leadingBit then e - 1 else e
  if e < leastExponent then leastExponent else e

/-- The number nearest to `num / den`; there is none beyond the largest finite one. -/
def ofRatio (negative : Bool) (num den : Nat) : Option Binary64 :=
  let e := exponentOf num den
  let (n, d) := shifted num den (-e)
  let m := roundDiv n d
  let (m, e) := if m = 2 * leadingBit then (leadingBit, e + 1) else (m, e)
  if m = 0 then some ⟨negative, 0, leastExponent⟩
  else if greatestExponent < e then none
  else some ⟨negative, m, e⟩

def isZero (x : Binary64) : Bool :=
  x.significand == 0

def mul (x y : Binary64) : Option Binary64 :=
  let (n, d) := shifted (x.significand * y.significand) 1 (x.exponent + y.exponent)
  ofRatio (x.negative != y.negative) n d

/-- The quotient by a number other than zero. -/
def div (x y : Binary64) : Option Binary64 :=
  let (n, d) := shifted x.significand y.significand (x.exponent - y.exponent)
  ofRatio (x.negative != y.negative) n d

/-- The largest power of ten below the overflow threshold is `10 ^ 308`. -/
def greatestTenPower : Nat := 308

/-- The number nearest to `10 ^ k`. -/
def tenPower (k : Nat) : Option Binary64 :=
  ofRatio false (Nat.pow 10 k) 1

/-- Division by `10 ^ k`, in steps that each divide by a finite power. -/
def divTenPower (x : Binary64) (k : Nat) : Option Binary64 :=
  if k ≤ greatestTenPower then do x.div (← tenPower k)
  else if x.isZero then some x
  else do
    let y ← x.div (← tenPower greatestTenPower)
    divTenPower y (k - greatestTenPower)
termination_by k
decreasing_by simp only [greatestTenPower] at *; omega

/-- The value of a decimal text: its significand is rounded first, then multiplied or divided by the rounded
power of ten. There is none if that overflows. -/
def ofDecimal (negative : Bool) (significand : Nat) (tens : Int) : Option Binary64 := do
  let x ← ofRatio negative significand 1
  if tens < 0 then divTenPower x (-tens).toNat
  else if tens.toNat ≤ greatestTenPower then x.mul (← tenPower tens.toNat)
  else if x.isZero then some x
  else none

end Binary64

end LadderLogic
