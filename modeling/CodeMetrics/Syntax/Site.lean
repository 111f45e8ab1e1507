import CodeMetrics.Syntax.Tree

/-! Places in a syntax tree. Two nodes can look alike, so a node is known by the way to it: the
    indices of the children to take, the last one first. -/

namespace CodeMetrics

/-- A node with the nodes around it, innermost first, and the way to it. -/
structure Site where
  tree : Tree
  above : List Tree := []
  way : List Nat := []

namespace Site

/-- The site of a child. -/
def down (s : Site) (index : Nat) (child : Tree) : Site :=
  ⟨child, s.tree :: s.above, index :: s.way⟩

/-- The sites of the children, in order. -/
def children (s : Site) : List Site :=
  s.tree.children.zipIdx.map fun (child, index) => s.down index child

end Site

namespace Tree

mutual

/-- The sites at and below a node, in source order. -/
def sitesFrom (above : List Tree) (way : List Nat) : Tree → List Site
  | .node label children =>
    ⟨.node label children, above, way⟩
      :: sitesAmong (.node label children :: above) way 0 children

/-- The sites at and below some children of a node. -/
def sitesAmong (above : List Tree) (way : List Nat) (index : Nat) : List Tree → List Site
  | [] => []
  | c :: rest => sitesFrom above (index :: way) c ++ sitesAmong above way (index + 1) rest

end

/-- All sites of a tree. -/
def sites (root : Tree) : List Site := root.sitesFrom [] []

end Tree

end CodeMetrics
