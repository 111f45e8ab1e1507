import CodeMetrics.Comparison.Metric
import CodeMetrics.Command.Fault
import CodeMetrics.Path
import CodeMetrics.Report.Format
import CodeMetrics.Text.Digits

/-! Values of arguments. -/

namespace CodeMetrics.Command

/-- A path, which must not be empty. -/
def readPath (text : String) : Except Fault RawPath :=
  if text.isEmpty then .error .invalidValue else .ok text

/-- One of the things that have a name. -/
def readChoice {α : Type} (ofName? : String → Option α) (text : String) : Except Fault α :=
  (ofName? text).elim (.error .invalidValue) .ok

/-- A number that can be read from a text. -/
def orUnreadable {α : Type} (value : Option α) : Except Fault α :=
  value.elim (.error .unreadableValue) .ok

/-- A whole number below a bound. -/
def natBelow? (bound : Nat) (cs : List Char) : Option Nat :=
  (ofDigits? 10 cs).filter (· < bound)

/-- A whole number of 64 bits, maybe with a plus sign. -/
def readNat64 (text : String) : Except Fault Nat :=
  orUnreadable (natBelow? (Nat.pow 2 64) (dropPlus text.toList))

/-- A whole number of 32 bits, maybe with a sign. -/
def readNat32 (text : String) : Except Fault Nat :=
  orUnreadable <| match text.toList with
    | '-' :: digits => natBelow? 1 digits
    | cs => natBelow? (Nat.pow 2 32) (dropPlus cs)

/-- A metric with its polarity. -/
def readMetric (text : String) : Except Fault MetricSpec :=
  (MetricSpec.parse text).mapError fun _ => .unreadableValue

end CodeMetrics.Command
