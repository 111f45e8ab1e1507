import CodeMetrics.Decimal.Binary

/-! A number with a fixed count of decimal places. The exact binary value is rounded, a half to the
    even neighbour, and the sign is kept even where only zeros are left. -/

namespace CodeMetrics.Decimal

/-- A magnitude with a fixed count of places. -/
def fixedMagnitude (places : Nat) (b : Binary) : List Char :=
  let n := roundDiv (b.num * Nat.pow 10 places) b.den
  let back := digits (n % Nat.pow 10 places)
  digits (n / Nat.pow 10 places) ++ '.' :: List.replicate (places - back.length) '0' ++ back

/-- A number with a fixed count of places, at least one. -/
def fixed (places : Nat) (x : Float) : String :=
  if x.isNaN then "NaN"
  else
    let sign := if isSigned x then "-" else ""
    if x.isInf then sign ++ "inf"
    else sign ++ String.ofList (fixedMagnitude places (magnitude x))

end CodeMetrics.Decimal
