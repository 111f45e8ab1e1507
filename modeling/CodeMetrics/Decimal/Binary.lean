/-! A finite floating-point number as an exact binary fraction. The 64 bits of a number hold a sign,
    eleven bits of exponent and 52 bits of fraction; the magnitude is `mantissa * 2 ^ exponent`. -/

namespace CodeMetrics.Decimal

/-- A magnitude `mantissa * 2 ^ exponent`. -/
structure Binary where
  mantissa : Nat
  exponent : Int
deriving DecidableEq, Repr

/-- The exponent bits of a number. -/
def exponentBits (x : Float) : Nat := (x.toBits.toNat / Nat.pow 2 52) % Nat.pow 2 11

/-- The fraction bits of a number. -/
def fractionBits (x : Float) : Nat := x.toBits.toNat % Nat.pow 2 52

/-- Whether the sign bit of a number is set; it is for the negative zero. -/
def isSigned (x : Float) : Bool := Nat.pow 2 63 ≤ x.toBits.toNat

/-- The magnitude of a finite number. -/
def magnitude (x : Float) : Binary :=
  if exponentBits x = 0 then ⟨fractionBits x, -1074⟩
  else ⟨Nat.pow 2 52 + fractionBits x, (exponentBits x : Int) - 1075⟩

namespace Binary

/-- The smallest exponent a magnitude can have. -/
def leastExponent : Int := -1074

/-- What a magnitude is multiplied with to clear `2 ^ exponent`, for numerator and denominator. -/
def scale (exponent : Int) : Nat × Nat := (Nat.pow 2 exponent.toNat, Nat.pow 2 (-exponent).toNat)

/-- Numerator of a magnitude over `den`. -/
def num (b : Binary) : Nat := b.mantissa * (scale b.exponent).1

/-- Denominator of a magnitude. -/
def den (b : Binary) : Nat := (scale b.exponent).2

end Binary

/-- A quotient rounded to the nearest natural number, a half to the even neighbour. -/
def roundDiv (num den : Nat) : Nat :=
  let quotient := num / den
  let rest := num % den
  if 2 * rest < den then quotient
  else if den < 2 * rest then quotient + 1
  else quotient + quotient % 2

/-- The least `j` with `n < 10 ^ j`. -/
def digitCount (n : Nat) : Nat :=
  if n = 0 then 0 else digitCount (n / 10) + 1

/-- The digits of a natural number. -/
def digits (n : Nat) : List Char := Nat.toDigits 10 n

end CodeMetrics.Decimal
