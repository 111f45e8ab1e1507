/-! The stages of a file in a run. They only go forward; a file can be skipped or fail at any stage
    before the last. -/

namespace CodeMetrics

/-- A stage of a file. -/
inductive Stage where
  | discovered
  | classified
  | parsed
  | measured
  | aggregated
  | skipped
  | failed
deriving DecidableEq, Repr

namespace Stage

/-- The name of a stage. -/
def name : Stage → String
  | .discovered => "discovered"
  | .classified => "classified"
  | .parsed => "parsed"
  | .measured => "measured"
  | .aggregated => "aggregated"
  | .skipped => "skipped"
  | .failed => "failed"

def all : List Stage :=
  [.discovered, .classified, .parsed, .measured, .aggregated, .skipped, .failed]

/-- A stage by its name. -/
def ofName? (s : String) : Option Stage := all.find? fun stage => stage.name == s

/-- The place of a stage in the order of stages; the two ways out have none. -/
def order? : Stage → Option Nat
  | .discovered => some 0
  | .classified => some 1
  | .parsed => some 2
  | .measured => some 3
  | .aggregated => some 4
  | .skipped | .failed => none

/-- Whether a file goes nowhere from a stage. -/
def isTerminal : Stage → Bool
  | .aggregated | .skipped | .failed => true
  | _ => false

/-- Whether a file can go from a stage to another. -/
def canAdvance (stage next : Stage) : Bool :=
  !stage.isTerminal && match stage.order?, next.order? with
    | some here, some there => here < there
    | some _, none => true
    | none, _ => false

end Stage

end CodeMetrics
