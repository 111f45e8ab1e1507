import CodeMetrics.Error
import CodeMetrics.Text.Blank

/-! The formats of reports. -/

namespace CodeMetrics

/-- A format of reports. -/
inductive Format where
  | json
  | csv
  | sarif
deriving DecidableEq, Repr

namespace Format

/-- The name of a format. -/
def name : Format → String
  | .json => "json"
  | .csv => "csv"
  | .sarif => "sarif"

def all : List Format := [.json, .csv, .sarif]

/-- A format by its exact name. -/
def ofName? (s : String) : Option Format := all.find? fun f => f.name == s

/-- A format by its name in any case. -/
def parse (s : String) : Except Error Format :=
  match ofName? (lowerAscii s) with
  | some f => .ok f
  | none => .error (.configuration (.badFormat (lowerAscii s)))

end Format

end CodeMetrics
