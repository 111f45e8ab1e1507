import CodeMetrics.Yaml.Token

/-! YAML documents as trees, from their tokens. -/

namespace CodeMetrics.Yaml

/-- A value in a document. -/
inductive Node where
  /-- A text, and whether it stands without quotes. -/
  | scalar (text : String) (plain : Bool)
  | list (items : List Node)
  | mapping (entries : List (Node × Node))
deriving Repr

/-- What stands where nothing is written. -/
def Node.nothing : Node := .scalar "" true

/-- Whether the next token is one of some, or there is none. -/
def isNext (tokens : List Token) (among : List Token) : Bool :=
  tokens.head?.all fun t => among.contains t

mutual

/-- One value; `block` allows lists and mappings by indentation, `unindented` a list that is not indented
    further than the mapping it stands in. -/
def readNode (block unindented : Bool) :
    Nat → List Token → Option (Node × List Token)
  | 0, _ => none
  | fuel + 1, tokens =>
    match tokens with
    | .scalar text plain :: rest => some (.scalar text plain, rest)
    | .openList :: rest => do
      let (items, rest) ← readFlowItems true fuel rest
      some (.list items, rest)
    | .openMapping :: rest => do
      let (entries, rest) ← readFlowEntries true fuel rest
      some (.mapping entries, rest)
    | .dash :: _ =>
      if unindented then do
        let (items, rest) ← readOpenItems fuel tokens
        some (.list items, rest)
      else none
    | .listStart :: rest =>
      if block then do
        let (items, rest) ← readItems fuel rest
        some (.list items, rest)
      else none
    | .mappingStart :: rest =>
      if block then do
        let (entries, rest) ← readEntries fuel rest
        some (.mapping entries, rest)
      else none
    | _ => none

/-- A value that may be left out before some tokens. -/
def readOptional (block unindented : Bool) (before : List Token) :
    Nat → List Token → Option (Node × List Token)
  | 0, _ => none
  | fuel + 1, tokens =>
    if isNext tokens before then some (.nothing, tokens) else readNode block unindented fuel tokens

/-- The items of an indented list. -/
def readItems : Nat → List Token → Option (List Node × List Token)
  | 0, _ => none
  | fuel + 1, tokens =>
    match tokens with
    | .blockEnd :: rest => some ([], rest)
    | .dash :: rest => do
      let (item, rest) ← readOptional true false [.dash, .blockEnd] fuel rest
      let (items, rest) ← readItems fuel rest
      some (item :: items, rest)
    | _ => none

/-- The items of a list that ends with its last dash. -/
def readOpenItems : Nat → List Token → Option (List Node × List Token)
  | 0, _ => none
  | fuel + 1, tokens =>
    match tokens with
    | .dash :: rest => do
      let (item, rest) ← readOptional true false [.dash, .key, .value, .blockEnd] fuel rest
      let (items, rest) ← readOpenItems fuel rest
      some (item :: items, rest)
    | _ => some ([], tokens)

/-- The value after a key. -/
def readValue (block : Bool) (before : List Token) : Nat → List Token → Option (Node × List Token)
  | 0, _ => none
  | fuel + 1, tokens =>
    match tokens with
    | .value :: rest => readOptional block block before fuel rest
    | _ => some (.nothing, tokens)

/-- The entries of an indented mapping. -/
def readEntries : Nat → List Token → Option (List (Node × Node) × List Token)
  | 0, _ => none
  | fuel + 1, tokens =>
    match tokens with
    | .blockEnd :: rest => some ([], rest)
    | .key :: rest => do
      let (key, rest) ← readOptional true true [.key, .value, .blockEnd] fuel rest
      let (value, rest) ← readValue true [.key, .value, .blockEnd] fuel rest
      let (entries, rest) ← readEntries fuel rest
      some ((key, value) :: entries, rest)
    | _ => none

/-- The items of a list in brackets. Items are parted by commas, and one may follow the last. -/
def readFlowItems (first : Bool) : Nat → List Token → Option (List Node × List Token)
  | 0, _ => none
  | fuel + 1, tokens =>
    match tokens with
    | .closeList :: rest => some ([], rest)
    | _ => do
      let tokens ← match first, tokens with
        | true, tokens => some tokens
        | false, .comma :: rest => some rest
        | false, _ => none
      match tokens with
      | .closeList :: rest => some ([], rest)
      | .key :: rest =>
        let (key, rest) ← readOptional false false [.value, .comma, .closeList] fuel rest
        let (value, rest) ← readValue false [.comma, .closeList] fuel rest
        let (items, rest) ← readFlowItems false fuel rest
        some (.mapping [(key, value)] :: items, rest)
      | tokens =>
        let (item, rest) ← readNode false false fuel tokens
        let (items, rest) ← readFlowItems false fuel rest
        some (item :: items, rest)

/-- The entries of a mapping in braces. A key without a value has none. -/
def readFlowEntries (first : Bool) : Nat → List Token → Option (List (Node × Node) × List Token)
  | 0, _ => none
  | fuel + 1, tokens =>
    match tokens with
    | .closeMapping :: rest => some ([], rest)
    | _ => do
      let tokens ← match first, tokens with
        | true, tokens => some tokens
        | false, .comma :: rest => some rest
        | false, _ => none
      match tokens with
      | .closeMapping :: rest => some ([], rest)
      | .key :: rest =>
        let (key, rest) ← readOptional false false [.value, .comma, .closeMapping] fuel rest
        let (value, rest) ← readValue false [.comma, .closeMapping] fuel rest
        let (entries, rest) ← readFlowEntries false fuel rest
        some ((key, value) :: entries, rest)
      | tokens =>
        let (key, rest) ← readNode false false fuel tokens
        let (entries, rest) ← readFlowEntries false fuel rest
        some ((key, .nothing) :: entries, rest)

end

/-- The value of a text that holds at most one document; the inner `none` is a text without any. -/
def parse? (text : String) : Option (Option Node) := do
  let tokens ← tokens? text
  let fuel := 4 * tokens.length + 4
  match tokens with
  | [] => some none
  | .documentStart :: rest =>
    let (node, rest) ← readOptional true false [.documentStart, .documentEnd] fuel rest
    if rest.all (· == .documentEnd) then some (some node) else none
  | tokens =>
    let (node, rest) ← readNode true false fuel tokens
    if rest.all (· == .documentEnd) then some (some node) else none

end CodeMetrics.Yaml
