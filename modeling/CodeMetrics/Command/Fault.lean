/-! What can be wrong with a command line. -/

namespace CodeMetrics.Command

/-- Why a command line is not carried out. Asking for help or the version ends it as well. -/
inductive Fault where
  | help
  | version
  /-- Something that must be there is missing. -/
  | missingArgument
  /-- There is no such option, or no place for one more argument. -/
  | unknownArgument
  /-- An option has no value, or a value that is none of those it can have. -/
  | invalidValue
  /-- A value cannot be read. -/
  | unreadableValue
  /-- An option is given twice, or with another that excludes it. -/
  | conflict
  /-- A flag is given a value. -/
  | excessValue
  /-- There is no such command to get help for. -/
  | unknownCommand
deriving DecidableEq, Repr

/-- The exit code: only help and the version are a success. -/
def Fault.exitCode : Fault → Nat
  | .help | .version => 0
  | _ => 1

end CodeMetrics.Command
