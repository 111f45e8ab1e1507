import CodeMetrics.Settings.Basic
import CodeMetrics.Yaml.Node

/-! Settings from YAML. A document is a mapping of settings, or a list of them in order; keys with
    other names are passed over. Only a scalar without quotes is a number, a truth value or absent;
    in a list of texts every scalar is a text.

    `ofYaml?` knows the part of YAML that settings are written in: mappings and lists in lines or in
    brackets, scalars with and without quotes, comments and marks between documents. It refuses
    anchors, aliases, tags, block scalars and directives. Settings can be read by any other reader
    in its place. -/

namespace CodeMetrics.Settings

open Yaml (Node)

/-! ### Scalars -/

/-- The base that the front of a number asks for, and the digits after it. -/
def splitBase : List Char → Nat × List Char
  | '0' :: 'x' :: rest => (16, rest)
  | '0' :: 'o' :: rest => (8, rest)
  | '0' :: 'b' :: rest => (2, rest)
  | cs => (10, cs)

/-- A whole number below a bound; decimal digits do not start with zero. -/
def number? (bound : Nat) (text : String) : Option Nat := do
  let (base, digits) := splitBase (dropPlus text.toList)
  if base == 10 && 1 < digits.length && digits.head? == some '0' then none
  let n ← ofDigits? base digits
  if n < bound then some n else none

/-- A truth value. -/
def truth? : String → Option Bool
  | "true" | "True" | "TRUE" => some true
  | "false" | "False" | "FALSE" => some false
  | _ => none

/-- Whether a scalar says that there is nothing. -/
def isAbsent (text : String) : Bool := ["", "null", "Null", "NULL", "~"].contains text

/-- Something that may be absent. -/
def optionOf? {α : Type} (read : Node → Option α) (node : Node) : Option (Option α) :=
  match node with
  | .scalar text true => if isAbsent text then some none else (read node).map some
  | _ => (read node).map some

/-- What a scalar without quotes stands for. -/
def plainOf? {α : Type} (read : String → Option α) : Node → Option α
  | .scalar text true => read text
  | _ => none

/-- The text of a scalar. -/
def textOf? : Node → Option String
  | .scalar text _ => some text
  | _ => none

/-- A list of texts. -/
def textsOf? : Node → Option (List String)
  | .list items => items.mapM textOf?
  | _ => none

/-! ### Documents -/

/-- Makes one setting. -/
def assign (s : Settings) (name : String) (node : Node) : Option Settings :=
  match name with
  | "languages" => (textsOf? node).map fun v => { s with languages := v }
  | "include" => (textsOf? node).map fun v => { s with included := v }
  | "exclude" => (textsOf? node).map fun v => { s with excluded := v }
  | "jobs" => (optionOf? (plainOf? (number? (Nat.pow 2 64))) node).map fun v => { s with jobs := v }
  | "top" => (optionOf? (plainOf? (number? (Nat.pow 2 64))) node).map fun v => { s with top := v }
  | "format" =>
    (optionOf? (fun n => (textOf? n).bind Format.ofName?) node).map fun v => { s with format := v }
  | "skip_unknown" => (optionOf? (plainOf? truth?) node).map fun v => { s with skipUnknown := v }
  | "timeout_secs" =>
    (optionOf? (plainOf? (number? (Nat.pow 2 64))) node).map fun v => { s with timeoutSecs := v }
  | "sarif_threshold" =>
    (optionOf? (plainOf? (number? (Nat.pow 2 32))) node).map fun v => { s with sarifThreshold := v }
  | "timestamp" => (optionOf? (plainOf? truth?) node).map fun v => { s with timestamp := v }
  | _ => some s

/-- Makes several settings, each at most once. -/
def assignAll (entries : List (String × Node)) : Option Settings :=
  let known := entries.filter fun (name, _) => fields.contains name
  if (known.map (·.1)).Nodup then
    known.foldlM (fun s (name, node) => assign s name node) {}
  else none

/-- The settings of a document. -/
def ofNode? : Node → Option Settings
  | .scalar text plain => if plain && text == "" then some {} else none
  | .list items => if items.length ≤ fields.length then assignAll (fields.zip items) else none
  | .mapping entries => do
    let entries ← entries.mapM fun (key, node) => (textOf? key).map (·, node)
    assignAll entries

/-- The settings of a text in YAML; a text without a document makes none. -/
def ofYaml? (text : String) : Option Settings :=
  (Yaml.parse? text).bind fun node => (node.map ofNode?).getD (some {})

/-- The settings that a reader finds in a text; a blank text makes none. -/
def parse? (read : String → Option Settings) (text : String) : Option Settings :=
  if (trimBlank text).isEmpty then some {} else read text

/-- The settings of a text, which is the content of the file at `path` if there is one. -/
def parse (read : String → Option Settings) (path : Option String) (text : String) :
    Except Error Settings :=
  match parse? read text with
  | some s => .ok s
  | none => .error (.configuration (.badSettings path))

end CodeMetrics.Settings
