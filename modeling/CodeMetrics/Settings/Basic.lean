import CodeMetrics.Glob.Match
import CodeMetrics.Json.Value
import CodeMetrics.Language.Selection
import CodeMetrics.Report.Render

/-! The settings of an analysis. What is not set has a default; values are checked before any file
    is read. -/

namespace CodeMetrics

/-- Settings, as far as they were made. -/
structure Settings where
  /-- Names of languages; none means all. -/
  languages : List String := []
  /-- Globs of which a file must match one, if there are any. -/
  included : List String := []
  /-- Globs of which a file must match none. -/
  excluded : List String := []
  jobs : Option Nat := none
  top : Option Nat := none
  format : Option Format := none
  skipUnknown : Option Bool := none
  timeoutSecs : Option Nat := none
  sarifThreshold : Option Nat := none
  timestamp : Option Bool := none
deriving DecidableEq, Repr

namespace Settings

/-- The number of worst routines in a report, unless another is set. -/
def defaultTop : Nat := 10

/-- The largest number of jobs. -/
def maxJobs : Nat := 1024

/-- The number of worst routines in a report. -/
def topOrDefault (s : Settings) : Nat := s.top.getD defaultTop

/-- The format of the report. -/
def formatOrDefault (s : Settings) : Format := s.format.getD .json

/-- Whether files of unknown language are passed over. -/
def skipsUnknown (s : Settings) : Bool := s.skipUnknown.getD false

/-- Whether the report tells when it was made. -/
def hasTimestamp (s : Settings) : Bool := s.timestamp.getD true

/-- The cognitive complexity above which a routine is a result. -/
def thresholdOrDefault (s : Settings) : Nat := s.sarifThreshold.getD defaultThreshold

/-- Checks the number of jobs. -/
def checkJobs (s : Settings) : Except Error Unit :=
  match s.jobs with
  | some 0 => .error (.configuration .noJobs)
  | some n => if maxJobs < n then .error (.configuration (.tooManyJobs maxJobs)) else .ok ()
  | none => .ok ()

/-- Checks the time limit. -/
def checkTimeout (s : Settings) : Except Error Unit :=
  if s.timeoutSecs == some 0 then .error (.configuration .noTime) else .ok ()

/-- Checks every value; the first that is wrong counts. -/
def validate (s : Settings) : Except Error Unit := do
  discard (Selection.parse s.languages)
  discard (Globs.parse s.included)
  discard (Globs.parse s.excluded)
  s.checkJobs
  s.checkTimeout

open Json (Value)

/-- The names of the settings, in order. -/
def fields : List String :=
  ["languages", "include", "exclude", "jobs", "top", "format", "skip_unknown", "timeout_secs",
   "sarif_threshold", "timestamp"]

def toJson (s : Settings) : Value :=
  .object
    [("languages", .list (s.languages.map .text)), ("include", .list (s.included.map .text)),
     ("exclude", .list (s.excluded.map .text)), ("jobs", .optional .nat s.jobs),
     ("top", .optional .nat s.top), ("format", .optional (fun f => .text f.name) s.format),
     ("skip_unknown", .optional .bool s.skipUnknown),
     ("timeout_secs", .optional .nat s.timeoutSecs),
     ("sarif_threshold", .optional .nat s.sarifThreshold),
     ("timestamp", .optional .bool s.timestamp)]

end Settings

end CodeMetrics
