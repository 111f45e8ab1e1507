import CodeMetrics.Measure.Halstead

/-! The maintainability index, from volume, cyclomatic complexity and number of lines. -/

namespace CodeMetrics

/-- The index as first published, and rescaled to 0 to 100. -/
structure Maintainability where
  unscaled : Float
  rescaled : Float
deriving BEq, Repr

namespace Maintainability

/-- The natural logarithm, zero where there is none. -/
def logOrZero (x : Float) : Float := if x > 0.0 then x.log else 0.0

/-- The larger of a number and zero. -/
def atLeastZero (x : Float) : Float := if x < 0.0 then 0.0 else x

/-- The index. -/
def compute (volume : Float) (cyclomatic lines : Nat) : Maintainability :=
  let unscaled := finiteOrZero (171.0 - 5.2 * logOrZero volume
    - 0.23 * Float.ofNat cyclomatic - 16.2 * logOrZero (Float.ofNat lines))
  ⟨unscaled, atLeastZero (unscaled * 100.0 / 171.0)⟩

end Maintainability

end CodeMetrics
