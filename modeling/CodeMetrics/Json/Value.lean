/-! JSON values. An object keeps its members in order, repeated names included: what a repetition
    means is up to whoever reads the object. -/

namespace CodeMetrics.Json

/-- A number as it was written: whole numbers of 64 bits stay whole. -/
inductive Number where
  | natural (n : Nat)
  | negative (n : Nat)
  | real (x : Float)
deriving BEq, Repr

/-- A JSON value. -/
inductive Value where
  | null
  | bool (b : Bool)
  | number (n : Number)
  | text (s : String)
  | list (items : List Value)
  | object (members : List (String × Value))
  /-- A well-formed literal that stands for no text or number: a surrogate without its partner, a
      number out of range, or an object with such a name. -/
  | beyond
deriving Inhabited, Repr

namespace Value

/-- A whole number. -/
def nat (n : Nat) : Value := .number (.natural n)

/-- A real number. -/
def real (x : Float) : Value := .number (.real x)

/-- A value that may be absent, written `null` where it is. -/
def optional {α : Type} (write : α → Value) : Option α → Value
  | none => .null
  | some a => write a

/-- The first member of an object with a name. -/
def get? (v : Value) (name : String) : Option Value :=
  match v with
  | .object members => members.lookup name
  | _ => none

end Value

end CodeMetrics.Json
