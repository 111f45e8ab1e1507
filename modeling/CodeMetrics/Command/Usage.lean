import CodeMetrics.Command.Fault

/-! Command lines by their options and positions. An argument is an option with two dashes, a group
    of options of one letter, a value of the option before it, or an argument at a position. Values
    are held back until the next argument shows that they are complete, and are read only then. -/

namespace CodeMetrics.Command

/-- What an option does to arguments of type `α`. -/
inductive Effect (α : Type) where
  | help
  | version
  /-- A flag that can be given once. -/
  | flag (set : α → α)
  /-- A flag that can be given again and again. -/
  | counted (set : α → α)
  /-- A value that can be given once. -/
  | value (read : String → α → Except Fault α)
  /-- A value that can be given again and again. -/
  | values (read : String → α → Except Fault α)

/-- An option. -/
structure OptionSpec (α : Type) where
  long : String
  short : Option Char := none
  effect : Effect α
  /-- Whether the next argument is its value even if it looks like an option. -/
  takesAny : Bool := false

/-- Whether an option has a value. -/
def OptionSpec.takesValue {α : Type} (o : OptionSpec α) : Bool :=
  match o.effect with
  | .value _ | .values _ => true
  | _ => false

/-- A position for arguments that belong to no option. -/
structure Place (α : Type) where
  read : String → α → Except Fault α
  /-- Whether all further arguments go here. -/
  isLast : Bool := false

/-- The options and positions of a command. -/
structure Usage (α : Type) where
  options : List (OptionSpec α)
  places : List (Place α)

/-- Values that wait for the next argument. -/
inductive Pending (α : Type) where
  | nothing
  /-- An option without its value. -/
  | option (o : OptionSpec α)
  /-- An option with its value. -/
  | value (o : OptionSpec α) (text : String)
  /-- Arguments at a position. -/
  | placed (place : Place α) (texts : List String)

/-- What was read so far. -/
structure Reading (α : Type) where
  arguments : α
  pending : Pending α := .nothing
  /-- Options that cannot be given again. -/
  used : List String := []
  /-- Positions that are taken. -/
  filled : Nat := 0

namespace Reading

variable {α : Type}

/-- Marks an option as used; a second time is a conflict. -/
def useOnce (r : Reading α) (o : OptionSpec α) : Except Fault (Reading α) :=
  if r.used.contains o.long then .error .conflict else .ok { r with used := o.long :: r.used }

/-- Carries out an option, with a value if it has one. -/
def carryOut (r : Reading α) (o : OptionSpec α) (text : String) :
    Except Fault (Reading α) := do
  match o.effect with
  | .help => .error .help
  | .version => .error .version
  | .flag set =>
    let r ← r.useOnce o
    .ok { r with arguments := set r.arguments }
  | .counted set => .ok { r with arguments := set r.arguments }
  | .value read =>
    let r ← r.useOnce o
    .ok { r with arguments := ← read text r.arguments }
  | .values read => .ok { r with arguments := ← read text r.arguments }

/-- Carries out what is pending. -/
def settle (r : Reading α) : Except Fault (Reading α) :=
  let rest := { r with pending := .nothing }
  match r.pending with
  | .nothing => .ok rest
  | .option _ => .error .invalidValue
  | .value o text => rest.carryOut o text
  | .placed place texts =>
    (texts.foldlM (fun arguments text => place.read text arguments) r.arguments).map
      fun arguments => { rest with arguments }

/-- An option, carried out after all before it. -/
def give (r : Reading α) (o : OptionSpec α) (text : String) : Except Fault (Reading α) := do
  (← r.settle).carryOut o text

/-- An option whose value is the next argument. -/
def await (r : Reading α) (o : OptionSpec α) : Except Fault (Reading α) := do
  .ok { ← r.settle with pending := .option o }

end Reading

namespace Usage

variable {α : Type}

/-- An option by its name. -/
def ofLong? (u : Usage α) (name : String) : Option (OptionSpec α) :=
  u.options.find? fun o => o.long == name

/-- An option by its letter. -/
def ofShort? (u : Usage α) (letter : Char) : Option (OptionSpec α) :=
  u.options.find? fun o => o.short == some letter

/-- An option by its name, with a value after `=` if there is one. -/
def readLong (u : Usage α) (r : Reading α) (cs : List Char) :
    Except Fault (Reading α) :=
  let name := cs.takeWhile (· != '=')
  match u.ofLong? (String.ofList name), cs.drop name.length with
  | none, _ => .error .unknownArgument
  | some o, [] => if o.takesValue then r.await o else r.give o ""
  | some o, _ :: value =>
    if o.takesValue then r.give o (String.ofList value) else .error .excessValue

/-- A group of letters; after one that takes a value the rest is its value. -/
def readShorts (u : Usage α) : Reading α → List Char → Except Fault (Reading α)
  | r, [] => .ok r
  | r, letter :: rest =>
    match u.ofShort? letter with
    | none => .error .unknownArgument
    | some o =>
      if o.takesValue then
        match rest with
        | [] => r.await o
        | '=' :: value => r.give o (String.ofList value)
        | value => r.give o (String.ofList value)
      else do u.readShorts (← r.give o "") rest

/-- An argument at the next position. -/
def readPlaced (u : Usage α) (r : Reading α) (text : String) :
    Except Fault (Reading α) := do
  match u.places[r.filled]? with
  | none => .error .unknownArgument
  | some place =>
    if place.isLast then
      match r.pending with
      | .placed place texts => .ok { r with pending := .placed place (texts ++ [text]) }
      | _ => .ok { ← r.settle with pending := .placed place [text] }
    else
      let r ← r.settle
      .ok { r with pending := .placed place [text], filled := r.filled + 1 }

/-- Arguments after `--`, which all go to positions. -/
def readTrailing (u : Usage α) (r : Reading α) (args : List String) :
    Except Fault (Reading α) :=
  args.foldlM u.readPlaced r

/-- One argument, unless it is `--`. -/
def readOne (u : Usage α) (r : Reading α) (arg : String) : Except Fault (Reading α) :=
  match r.pending, arg.toList with
  | .option o, cs =>
    if o.takesAny || cs == ['-'] || cs.head? != some '-' then
      .ok { r with pending := .value o arg }
    else match cs with
      | '-' :: '-' :: long => u.readLong r long
      | _ => u.readShorts r cs.tail
  | _, '-' :: '-' :: long => u.readLong r long
  | _, '-' :: letter :: rest => u.readShorts r (letter :: rest)
  | _, _ => u.readPlaced r arg

/-- Whether the next argument is the value of an option, whatever it is. -/
def takesNext (r : Reading α) : Bool :=
  match r.pending with
  | .option o => o.takesAny
  | _ => false

/-- Reads arguments one after the other. -/
def readFrom (u : Usage α) : Reading α → List String → Except Fault (Reading α)
  | r, [] => r.settle
  | r, arg :: rest =>
    if arg == "--" && !takesNext r then do (← u.readTrailing r rest).settle
    else do u.readFrom (← u.readOne r arg) rest

/-- The arguments of a command line, starting from those of an empty one. -/
def read (u : Usage α) (start : α) (args : List String) : Except Fault α :=
  (u.readFrom { arguments := start } args).map (·.arguments)

end Usage

end CodeMetrics.Command
