import CodeMetrics.Json.Value

/-! Reading records from JSON. A record is an object, or a list of its fields' values in order.
    Members with other names are passed over, a field given twice is refused, and a field that has a
    default may be left out. Whole numbers serve as reals, reals never as whole numbers. -/

namespace CodeMetrics.Json

/-- The members of a record with known names. -/
structure Record where
  members : List (String × Value)

namespace Value

/-- A whole number below a bound. -/
def natBelow? (bound : Nat) : Value → Option Nat
  | .number (.natural n) => if n < bound then some n else none
  | _ => none

/-- A whole number of 32 bits. -/
def nat32? : Value → Option Nat := natBelow? (Nat.pow 2 32)

/-- A whole number of 64 bits. -/
def nat64? : Value → Option Nat := natBelow? (Nat.pow 2 64)

/-- A real number. -/
def real? : Value → Option Float
  | .number (.natural n) => some (Float.ofNat n)
  | .number (.negative n) => some (-Float.ofNat n)
  | .number (.real x) => some x
  | _ => none

def text? : Value → Option String
  | .text s => some s
  | _ => none

def bool? : Value → Option Bool
  | .bool b => some b
  | _ => none

/-- A list of things of one sort. -/
def listOf? {α : Type} (read : Value → Option α) : Value → Option (List α)
  | .list items => items.mapM read
  | _ => none

/-- Something that may be `null`. -/
def optional? {α : Type} (read : Value → Option α) : Value → Option (Option α)
  | .null => some none
  | v => (read v).map some

/-- Members of one sort under any names. -/
def membersOf? {α : Type} (read : Value → Option α) : Value → Option (List (String × α))
  | .object members => members.mapM fun (name, v) => (read v).map (name, ·)
  | _ => none

/-- One of several names: as a text, or as the only member of an object. -/
def choice? {α : Type} (ofName? : String → Option α) : Value → Option α
  | .text s => ofName? s
  | .object [(name, .null)] => ofName? name
  | _ => none

/-- The record of a value, given the names of its fields in order. -/
def record? (names : List String) : Value → Option Record
  | .object members =>
    let known := members.filter fun (name, _) => names.contains name
    if (known.map (·.1)).Nodup then some ⟨known⟩ else none
  | .list items => if items.length ≤ names.length then some ⟨names.zip items⟩ else none
  | _ => none

end Value

namespace Record

/-- A field that must be there. -/
def required {α : Type} (r : Record) (name : String) (read : Value → Option α) : Option α :=
  (r.members.lookup name).bind read

/-- A field with a default. -/
def withDefault {α : Type} (r : Record) (name : String) (read : Value → Option α) (default : α) :
    Option α :=
  match r.members.lookup name with
  | none => some default
  | some v => read v

end Record

end CodeMetrics.Json
