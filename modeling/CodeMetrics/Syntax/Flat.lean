import CodeMetrics.Syntax.Tree

/-! Syntax trees as flat lists. A parser hands over its nodes in source order, each before its
    children and with their number; read from the end, every node finds its children ready. -/

namespace CodeMetrics

/-- A node of a flat list. -/
structure FlatNode where
  label : Label
  childCount : Nat

namespace FlatNode

/-- The bits of a node's flags. -/
def hasFlag (flags bit : Nat) : Bool := flags / bit % 2 = 1

/-- A node from its six numbers: kind, flags, field, start, stop and number of children. Kind and
    field are indices into lists of names; a field below zero is none. -/
def ofNumbers? (kinds fields : Array String) :
    (kind flags field start stop childCount : Int) → Option FlatNode
  | .ofNat kind, .ofNat flags, field, .ofNat start, .ofNat stop, .ofNat childCount => do
    let kind ← kinds[kind]?
    let field ← match field with
      | .ofNat i => (fields[i]?).map some
      | .negSucc _ => some none
    some
      { label :=
          { kind, field, start, stop
            named := hasFlag flags 1
            extra := hasFlag flags 2
            missing := hasFlag flags 4
            error := hasFlag flags 8
            hasError := hasFlag flags 16 }
        childCount }
  | _, _, _, _, _, _ => none

/-- The nodes of a list of numbers, six a node. -/
def all? (kinds fields : Array String) : List Int → Option (List FlatNode)
  | [] => some []
  | kind :: flags :: field :: start :: stop :: childCount :: rest => do
    let node ← ofNumbers? kinds fields kind flags field start stop childCount
    let nodes ← all? kinds fields rest
    some (node :: nodes)
  | _ => none

/-- Puts a node in front of the trees after it, the first of which become its children. -/
def attach (node : FlatNode) (later : List Tree) : List Tree :=
  .node node.label (later.take node.childCount) :: later.drop node.childCount

end FlatNode

/-- The tree of a flat list that holds exactly one. -/
def Tree.ofFlat? (nodes : List FlatNode) : Option Tree :=
  match nodes.foldr FlatNode.attach [] with
  | [root] => some root
  | _ => none

end CodeMetrics
