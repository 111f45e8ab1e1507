import CodeMetrics.Json.Record
import CodeMetrics.Syntax.Flat

/-! Syntax trees as JSON: the names of kinds and fields, and the nodes as a flat list of numbers. -/

namespace CodeMetrics

open Json (Value)

/-- A whole number of either sign. -/
def wholeOfJson? : Value → Option Int
  | .number (.natural n) => some n
  | .number (.negative n) => some (-n)
  | _ => none

/-- The tree of a value. -/
def Tree.ofJson? (v : Value) : Option Tree := do
  let kinds ← (← v.get? "kinds").listOf? Value.text?
  let fields ← (← v.get? "fields").listOf? Value.text?
  let numbers ← (← v.get? "nodes").listOf? wholeOfJson?
  let nodes ← FlatNode.all? kinds.toArray fields.toArray numbers
  Tree.ofFlat? nodes

end CodeMetrics
