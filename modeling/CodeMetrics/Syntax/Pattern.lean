import CodeMetrics.Syntax.Site

/-! Patterns of syntax. A pattern asks for a named node of certain kinds, maybe in a field of its
    parent, with certain children; the children it asks for stand in that order, with anything
    between them. A match is the list of sites that the marks of the pattern fall on. -/

namespace CodeMetrics

/-- A pattern whose marks are of type `μ`; no kinds stand for any kind. -/
inductive Pattern (μ : Type) where
  | node (field : Option String) (kinds : List String) (mark : Option μ)
      (parts : List (Pattern μ))

namespace Pattern

variable {μ : Type}

/-- Whether a node is one that a pattern asks for, its children apart. -/
def accepts (field : Option String) (kinds : List String) (t : Tree) : Bool :=
  t.isNamed && field.all (fun name => t.hasField name) && (kinds.isEmpty || kinds.contains t.kind)

/-- Every element of a list with the elements after it. -/
def splits {α : Type} : List α → List (α × List α)
  | [] => []
  | a :: rest => (a, rest) :: splits rest

mutual

/-- All matches of a pattern at a site. -/
def matchesAt : Pattern μ → Site → List (List (μ × Site))
  | .node field kinds mark parts, s =>
    if accepts field kinds s.tree then
      (matchesAmong parts s.children).map fun found =>
        match mark with
        | none => found
        | some m => (m, s) :: found
    else []

/-- All ways to match some patterns with sites in order. -/
def matchesAmong : List (Pattern μ) → List Site → List (List (μ × Site))
  | [], _ => [[]]
  | p :: ps, sites =>
    (splits sites).flatMap fun (s, later) =>
      (matchesAt p s).flatMap fun found => (matchesAmong ps later).map (found ++ ·)

end

/-- All matches of some patterns anywhere in a tree. -/
def matchesIn (patterns : List (Pattern μ)) (root : Tree) : List (List (μ × Site)) :=
  root.sites.flatMap fun s => patterns.flatMap fun p => p.matchesAt s

end Pattern

end CodeMetrics
