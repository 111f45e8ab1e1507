import CodeMetrics.Decimal.Binary

/-! The shortest decimal that reads back as a given number. The reals that round to a magnitude form
    an interval; of the decimals in it, those with the fewest digits are wanted, and of these the
    nearest. On each grid of decimals it is enough to look at the two neighbours of the value. -/

namespace CodeMetrics.Decimal

/-- A decimal `digits * 10 ^ exponent`. -/
structure Scientific where
  coefficient : Nat
  exponent : Int
deriving DecidableEq, Repr

/-- The interval of reals that round to a magnitude, over the common denominator `den`. -/
structure Interval where
  low : Nat
  value : Nat
  high : Nat
  den : Nat
  closed : Bool

/-- The interval of a magnitude. It is closed where the mantissa is even, and its lower half is
    narrower at a power of two. -/
def Binary.interval (b : Binary) : Interval :=
  let (up, down) := Binary.scale (b.exponent - 2)
  let narrow := b.mantissa = Nat.pow 2 52 ∧ Binary.leastExponent < b.exponent
  { low := (4 * b.mantissa - if narrow then 1 else 2) * up
    value := 4 * b.mantissa * up
    high := (4 * b.mantissa + 2) * up
    den := down
    closed := b.mantissa % 2 = 0 }

namespace Interval

/-- Whether `n / m` is in the interval, where `m` is `den` times something. -/
def holds (i : Interval) (n m : Nat) : Bool :=
  if i.closed then i.low * m ≤ n * i.den && n * i.den ≤ i.high * m
  else i.low * m < n * i.den && n * i.den < i.high * m

/-- The least `k` with `value / den < 10 ^ k`. -/
def decade (i : Interval) : Int :=
  if i.den ≤ i.value then digitCount (i.value / i.den)
  else 1 - (digitCount ((i.den - 1) / i.value) : Int)

/-- The decimal of the grid `10 ^ p` that is in the interval and nearest to the value. -/
def onGrid (i : Interval) (p : Int) : Option Scientific :=
  let up := Nat.pow 10 p.toNat
  let down := Nat.pow 10 (-p).toNat
  let below := i.value * down / (i.den * up)
  let inside := fun c => i.holds (c * up) down
  match inside below, inside (below + 1) with
  | true, true => some ⟨roundDiv (i.value * down) (i.den * up), p⟩
  | true, false => some ⟨below, p⟩
  | false, true => some ⟨below + 1, p⟩
  | false, false => none

end Interval

/-- A decimal without zeros at its end. -/
def Scientific.stripped (s : Scientific) : Scientific :=
  if s.coefficient = 0 then s
  else if s.coefficient % 10 = 0 then stripped ⟨s.coefficient / 10, s.exponent + 1⟩
  else s
termination_by s.coefficient
decreasing_by omega

/-- The shortest decimal of a positive magnitude: the coarsest grid that has one. Seventeen digits
    always suffice. -/
def shortest (b : Binary) : Scientific :=
  let i := b.interval
  let k := i.decade
  let found := (List.range 17).findSome? fun n : Nat => i.onGrid (k - (n + 1 : Nat))
  (found.getD ⟨b.mantissa, b.exponent⟩).stripped

end CodeMetrics.Decimal
