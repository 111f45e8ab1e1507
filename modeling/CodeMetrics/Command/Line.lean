import CodeMetrics.Command.Analyze
import CodeMetrics.Command.Compare

/-! Whole command lines. The first argument may name a command; without one it is an analysis. All
    commands have options for how much is logged and for help. -/

namespace CodeMetrics

namespace Command

/-- Arguments with those that all commands have. -/
structure Request (α : Type) where
  arguments : α
  /-- How often more logging was asked for. -/
  verbose : Nat := 0
  /-- Only errors are logged. -/
  quiet : Bool := false

/-- The largest count of a flag. -/
def maxCount : Nat := 255

/-- The same effect on a part of the arguments. -/
def Effect.lift {α : Type} : Effect α → Effect (Request α)
  | .help => .help
  | .version => .version
  | .flag set => .flag fun r => { r with arguments := set r.arguments }
  | .counted set => .counted fun r => { r with arguments := set r.arguments }
  | .value read =>
    .value fun text r => (read text r.arguments).map fun a => { r with arguments := a }
  | .values read =>
    .values fun text r => (read text r.arguments).map fun a => { r with arguments := a }

/-- Options that all commands have. -/
def commonOptions {α : Type} : List (OptionSpec (Request α)) :=
  [{ long := "verbose", short := some 'v'
     effect := .counted fun r => { r with verbose := min (r.verbose + 1) maxCount } },
   { long := "quiet", short := some 'q', effect := .flag fun r => { r with quiet := true } },
   { long := "help", short := some 'h', effect := .help }]

/-- The option that tells the version. -/
def versionOption {α : Type} : OptionSpec α :=
  { long := "version", short := some 'V', effect := .version }

/-- A command with the options that all commands have and some more. -/
def Usage.lift {α : Type} (u : Usage α) (more : List (OptionSpec (Request α))) :
    Usage (Request α) where
  options := u.options.map (fun o => { o with effect := o.effect.lift }) ++ commonOptions ++ more
  places := u.places.map fun p =>
    { p with read := fun text r => (p.read text r.arguments).map fun a => { r with arguments := a } }

/-- Checks arguments as a whole. -/
def Request.check {α : Type} (isComplete : α → Bool) (r : Request α) : Except Fault (Request α) :=
  if r.quiet && 0 < r.verbose then .error .conflict
  else if !isComplete r.arguments then .error .missingArgument
  else .ok r

end Command

open Command

/-- What a command line asks for. -/
inductive CommandLine where
  /-- An analysis, and whether the command was named. -/
  | analyze (named : Bool) (request : Request AnalyzeArguments)
  | compare (request : Request CompareArguments)

namespace CommandLine

/-- The commands. -/
def commands : List String := ["analyze", "diff", "help"]

/-- An analysis. -/
def parseAnalyze (named : Bool) (args : List String) : Except Fault CommandLine := do
  let usage := AnalyzeArguments.usage.lift (if named then [] else [versionOption])
  let request ← usage.read ⟨{}, 0, false⟩ args
  .ok (.analyze named (← request.check AnalyzeArguments.isComplete))

/-- A comparison. -/
def parseCompare (args : List String) : Except Fault CommandLine := do
  let request ← (CompareArguments.usage.lift []).read ⟨{}, 0, false⟩ args
  .ok (.compare (← request.check CompareArguments.isComplete))

/-- Help, maybe for a command. -/
def parseHelp : List String → Fault
  | [] => .help
  | [command] => if commands.contains command then .help else .unknownCommand
  | _ => .unknownCommand

/-- Reads a command line. -/
def parse : List String → Except Fault CommandLine
  | "analyze" :: args => parseAnalyze true args
  | "diff" :: args => parseCompare args
  | "help" :: args => .error (parseHelp args)
  | args => parseAnalyze false args

end CommandLine

end CodeMetrics
