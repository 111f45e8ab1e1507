import CodeMetrics.Glob.Fault
import CodeMetrics.Project.Stage
import CodeMetrics.Syntax.Source
import CodeMetrics.Text.Quoted

/-! What can go wrong, by cause. An error of a single file is part of the report; an error of the
    settings or of the program ends a run. -/

namespace CodeMetrics

/-- Why the system refused a path. -/
inductive SystemFault where
  | notFound
  | notADirectory
  | isADirectory
  | tooManyLinks
  /-- The content is no UTF-8 text. -/
  | notText
  /-- A reason in words. -/
  | stated (reason : String)
deriving DecidableEq, Repr

/-- A fault in the system's words. -/
def SystemFault.message : SystemFault → String
  | .notFound => "No such file or directory (os error 2)"
  | .notADirectory => "Not a directory (os error 20)"
  | .isADirectory => "Is a directory (os error 21)"
  | .tooManyLinks => "Too many levels of symbolic links (os error 40)"
  | .notText => "stream did not contain valid UTF-8"
  | .stated reason => reason

/-- Why settings, arguments or reports cannot be used. -/
inductive Misconfiguration where
  | unsupportedLanguage (name : String)
  | badGlob (pattern : String) (fault : Glob.Fault)
  | badFormat (name : String)
  | unknownMetric (name : String) (known : List String)
  | noJobs
  | tooManyJobs (limit : Nat)
  | noTime
  /-- Settings that do not fit, from a file where there is one. -/
  | badSettings (path : Option String)
  | inaccessible (path : String) (fault : SystemFault)
  | notAReport (path : String)
  | otherSchema (path found expected : String)
  /-- A reason in words. -/
  | stated (reason : String)
deriving DecidableEq, Repr

/-- A cause in words. -/
def Misconfiguration.message : Misconfiguration → String
  | .unsupportedLanguage name =>
    "unsupported language " ++ quoted name
      ++ ", must be one of go, python, rust, typescript, all"
  | .badGlob pattern fault =>
    "invalid glob " ++ quoted pattern ++ ": error parsing glob '" ++ pattern ++ "': "
      ++ fault.message
  | .badFormat name => "invalid format " ++ quoted name ++ ", must be 'json', 'csv', or 'sarif'"
  | .unknownMetric name known =>
    "unknown metric " ++ quoted name ++ ", must be one of " ++ ", ".intercalate known
  | .noJobs => "jobs must be at least 1"
  | .tooManyJobs limit => s!"jobs must be at most {limit}"
  | .noTime => "timeout must be at least 1 second"
  | .badSettings none => "invalid config"
  | .badSettings (some path) => "invalid config " ++ path
  | .inaccessible path fault => "cannot access path " ++ path ++ ": " ++ fault.message
  | .notAReport path => path ++ " is not a mehen JSON report"
  | .otherSchema path found expected =>
    path ++ ": unsupported schema version " ++ found ++ " (expected " ++ expected ++ ")"
  | .stated reason => reason

/-- Why there is no syntax tree. -/
inductive ParseFault where
  | undecodable (fault : DecodeFault)
  | noTree (grammar : String)
  /-- A reason in words. -/
  | stated (reason : String)
deriving DecidableEq, Repr

/-- A fault in words. -/
def ParseFault.message : ParseFault → String
  | .undecodable fault => fault.message
  | .noTree grammar => grammar ++ " parser produced no tree"
  | .stated reason => reason

/-- What must not happen. -/
inductive InternalFault where
  | badTransition (stage next : Stage)
  /-- A reason in words. -/
  | stated (reason : String)
deriving DecidableEq, Repr

/-- A fault in words. -/
def InternalFault.message : InternalFault → String
  | .badTransition stage next =>
    "illegal file state transition " ++ stage.name ++ " -> " ++ next.name
  | .stated reason => reason

/-- Everything that can go wrong. -/
inductive Error where
  | unknownLanguage (path : String)
  | parseFailure (fault : ParseFault)
  /-- A tree was made in spite of syntax errors. -/
  | recovered (count line : Nat)
  | configuration (cause : Misconfiguration)
  | grammarLoad (language reason : String)
  | system (path : String) (fault : SystemFault)
  | notExported (reason : String)
  | internal (fault : InternalFault)
deriving DecidableEq, Repr

namespace Error

/-- An error in words. -/
def message : Error → String
  | .unknownLanguage path => "unknown language for " ++ path
  | .parseFailure fault => "parse failure: " ++ fault.message
  | .recovered count line => s!"{count} syntax error(s), first at line {line}"
  | .configuration cause => "configuration error: " ++ cause.message
  | .grammarLoad language reason => "failed to load " ++ language ++ " grammar: " ++ reason
  | .system path fault => path ++ ": " ++ fault.message
  | .notExported reason => "export failed: " ++ reason
  | .internal fault => "internal error: " ++ fault.message

/-- Whether an error ends a run. -/
def isFatal : Error → Bool
  | .configuration _ | .grammarLoad _ _ | .notExported _ | .internal _ => true
  | _ => false

/-- The exit code of a command that ends with an error: bad input is 1, anything else 2. -/
def exitCode : Error → Nat
  | .configuration _ => 1
  | e => if e.isFatal then 2 else 1

end Error

/-- The next stage of a file, if it can go there. -/
def Stage.advance (stage next : Stage) : Except Error Stage :=
  if stage.canAdvance next then .ok next else .error (.internal (.badTransition stage next))

end CodeMetrics
