/-! Syntax trees as a grammar gives them. A node has a kind, maybe a field name in its parent, some
    flags and a stretch of the source; words and signs of the language are nodes without a name.
    Every count over a tree is a sum over the nodes that a `walk` reaches. -/

namespace CodeMetrics

/-- What a node says of itself. -/
structure Label where
  kind : String
  field : Option String := none
  named : Bool := true
  /-- May stand anywhere, as a comment does. -/
  extra : Bool := false
  /-- Put in by the parser where the source has nothing. -/
  missing : Bool := false
  /-- Source that the grammar could not place. -/
  error : Bool := false
  /-- There is an error here or somewhere below. -/
  hasError : Bool := false
  start : Nat := 0
  stop : Nat := 0
deriving DecidableEq, Repr

/-- A node with its children, all in source order. -/
inductive Tree where
  | node (label : Label) (children : List Tree)
deriving Repr

namespace Tree

def label : Tree → Label
  | .node label _ => label

def children : Tree → List Tree
  | .node _ children => children

def kind (t : Tree) : String := t.label.kind

def isNamed (t : Tree) : Bool := t.label.named

/-- Whether a node stands for something in the source: neither extra nor missing. -/
def isSolid (t : Tree) : Bool := !t.label.extra && !t.label.missing

def isLeaf (t : Tree) : Bool := t.children.isEmpty

/-- Whether a node covers any source. -/
def coversText (t : Tree) : Bool := t.label.start < t.label.stop

def hasField (name : String) (t : Tree) : Bool := t.label.field == some name

/-- The first child in a field. -/
def child? (t : Tree) (name : String) : Option Tree := t.children.find? (hasField name)

/-- All children in a field. -/
def childrenIn (t : Tree) (name : String) : List Tree := t.children.filter (hasField name)

/-- A named child that is not extra: a part of what the node says. -/
def isPart (t : Tree) : Bool := t.isNamed && !t.label.extra

/-- The parts of a node. -/
def parts (t : Tree) : List Tree := t.children.filter isPart

/-- The only part of a node that has exactly one. -/
def onlyPart? (t : Tree) : Option Tree :=
  match t.parts with
  | [only] => some only
  | _ => none

mutual

/-- A node and the nodes below it, in source order; `enters parent child` tells whether the walk
    goes on from a node to one of its children. -/
def walk (enters : Tree → Tree → Bool) : Tree → List Tree
  | .node label children => .node label children :: walkAmong enters (.node label children) children

/-- The walks from some children of a node. -/
def walkAmong (enters : Tree → Tree → Bool) (parent : Tree) : List Tree → List Tree
  | [] => []
  | c :: rest => (if enters parent c then walk enters c else []) ++ walkAmong enters parent rest

end

/-- All nodes of a tree. -/
def nodes (t : Tree) : List Tree := t.walk fun _ _ => true

/-- The bytes of the source that a node covers. -/
def bytes (source : List UInt8) (t : Tree) : List UInt8 :=
  (source.drop t.label.start).take (t.label.stop - t.label.start)

end Tree

end CodeMetrics
