import CodeMetrics.Command.Execution
import CodeMetrics.Project.Snapshot
import CodeMetrics.Json.Reader

/-! The command line. The files of the project come in as one JSON value on standard input: under
    `files` the list of items with the trees of sources, under `time` the time for the report, and
    under `color` whether texts are colored. -/

namespace CodeMetrics.Command

/-- What surrounds a command, from the text on standard input. -/
def surroundings? (text : String) : Option Surroundings := do
  let v ← Json.parse? text
  let files ← FileSystem.ofJson? (← v.get? "files")
  some
    { files
      color := ((v.get? "color").bind Json.Value.bool?).getD false
      time := ((v.get? "time").bind Json.Value.text?).getD "" }

/-- Prints what a command leaves behind, and saves the file it was to write. -/
def deliver (line : CommandLine) (finished : Finished) : IO UInt32 := do
  (← IO.getStdout).putStr finished.output
  (← IO.getStderr).putStr finished.errors
  if let .analyze _ request := line then
    if let some path := request.arguments.output then
      if finished.exitCode == 0 then
        if let .ok text := finished.files.readText path then IO.FS.writeFile path.text text
  return finished.exitCode.toUInt32

end CodeMetrics.Command

open CodeMetrics

/-- Reads the command line, then the project, and carries the command out. -/
def main (args : List String) : IO UInt32 := do
  match CommandLine.parse args with
  | .error fault => return fault.exitCode.toUInt32
  | .ok line =>
    match Command.surroundings? (← (← IO.getStdin).readToEnd) with
    | none =>
      (← IO.getStderr).putStr "Error: standard input holds no project\n"
      return 2
    | some s => Command.deliver line (line.execute s)
