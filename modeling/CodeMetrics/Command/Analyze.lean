import CodeMetrics.Command.Usage
import CodeMetrics.Command.Value
import CodeMetrics.Settings.Basic

/-! The arguments of an analysis. They go over the settings: what is given replaces a value, and
    lists are lengthened. -/

namespace CodeMetrics

/-- The arguments of an analysis. -/
structure AnalyzeArguments where
  /-- Files and directories. -/
  paths : List RawPath := []
  languages : List String := []
  excluded : List String := []
  included : List String := []
  format : Option Format := none
  jobs : Option Nat := none
  top : Option Nat := none
  /-- The file for the report. -/
  output : Option RawPath := none
  /-- The file with settings. -/
  settings : Option RawPath := none
  skipUnknown : Bool := false
  timeoutSecs : Option Nat := none
  noTimestamp : Bool := false
  sarifThreshold : Option Nat := none
deriving DecidableEq, Repr

namespace AnalyzeArguments

/-- Settings with the arguments over them. -/
def override (a : AnalyzeArguments) (s : Settings) : Settings where
  languages := s.languages ++ a.languages
  included := s.included ++ a.included
  excluded := s.excluded ++ a.excluded
  jobs := a.jobs <|> s.jobs
  top := a.top <|> s.top
  format := a.format <|> s.format
  skipUnknown := if a.skipUnknown then some true else s.skipUnknown
  timeoutSecs := a.timeoutSecs <|> s.timeoutSecs
  sarifThreshold := a.sarifThreshold <|> s.sarifThreshold
  timestamp := if a.noTimestamp then some false else s.timestamp

open Command

/-- An option with a value, set once it is read. -/
def setting {β : Type} (read : String → Except Fault β)
    (set : AnalyzeArguments → β → AnalyzeArguments) (text : String) (a : AnalyzeArguments) :
    Except Fault AnalyzeArguments :=
  (read text).map (set a)

def usage : Usage AnalyzeArguments where
  options :=
    [{ long := "lang", short := some 'l'
       effect := .values (setting .ok fun a v => { a with languages := a.languages ++ [v] }) },
     { long := "exclude"
       effect := .values (setting .ok fun a v => { a with excluded := a.excluded ++ [v] }) },
     { long := "include"
       effect := .values (setting .ok fun a v => { a with included := a.included ++ [v] }) },
     { long := "format", short := some 'f'
       effect := .value (setting (readChoice Format.ofName?) fun a v => { a with format := some v }) },
     { long := "jobs", short := some 'j'
       effect := .value (setting readNat64 fun a v => { a with jobs := some v }) },
     { long := "top"
       effect := .value (setting readNat64 fun a v => { a with top := some v }) },
     { long := "output", short := some 'o'
       effect := .value (setting readPath fun a v => { a with output := some v }) },
     { long := "config", short := some 'c'
       effect := .value (setting readPath fun a v => { a with settings := some v }) },
     { long := "skip-unknown", effect := .flag fun a => { a with skipUnknown := true } },
     { long := "timeout"
       effect := .value (setting readNat64 fun a v => { a with timeoutSecs := some v }) },
     { long := "no-timestamp", effect := .flag fun a => { a with noTimestamp := true } },
     { long := "sarif-threshold"
       effect := .value (setting readNat32 fun a v => { a with sarifThreshold := some v }) }]
  places := [{ read := setting readPath fun a v => { a with paths := a.paths ++ [v] }
               isLast := true }]

/-- There must be something to analyze. -/
def isComplete (a : AnalyzeArguments) : Bool := !a.paths.isEmpty

end AnalyzeArguments

end CodeMetrics
