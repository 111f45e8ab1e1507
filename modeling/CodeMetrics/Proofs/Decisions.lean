import CodeMetrics.Measure.File
import CodeMetrics.Proofs.Entries
import CodeMetrics.Proofs.Grammar
import CodeMetrics.Proofs.Routines

/-! Decisions and exits are counted once, in the routine right around them.

    The walk of a routine gives each node it reaches a part in a choice that suits the node, so what
    a node adds to the decisions and to the exits follows from the node alone. The nodes that the
    walk does not reach add nothing, or stand in a routine inside. So the measure of a routine is a
    count over its own nodes, and the own nodes of all routines are the nodes that have a routine
    around them. -/

namespace CodeMetrics

/-- The constructs that are decisions. -/
def Construct.isDecision : Construct → Bool
  | .branch | .elseIf | .case | .loop | .handler | .ternary | .guard | .tryOperator => true
  | .otherwise | .switch | .exit | .jump => false

/-- The constructs that leave a routine. -/
def Construct.isExit : Construct → Bool
  | .exit | .tryOperator => true
  | _ => false

namespace Grammar

/-- A named node that is a decision: by its construct, as a logical operation or by its guard. -/
def isDecision (g : Grammar) (t : Tree) : Bool :=
  t.isNamed && ((g.construct? t).any Construct.isDecision || (g.logicalOperator? t).isSome
    || g.isGuarded t)

/-- A node that leaves a routine. -/
def isExit (g : Grammar) (t : Tree) : Bool := (g.construct? t).any Construct.isExit

/-- The nodes at and below a node, routines inside not entered. -/
def own (g : Grammar) (t : Tree) : List Tree := t.walk fun parent _ => !g.isRoutine parent

/-- The own nodes of what a node holds. -/
def inside (g : Grammar) (t : Tree) : List Tree := t.children.flatMap g.own

theorem own_eq (g : Grammar) (t : Tree) :
    g.own t = t :: if g.isRoutine t then [] else g.inside t := by
  rw [own, Tree.walk_eq, inside]
  cases g.isRoutine t with
  | true => exact congrArg (t :: ·) (List.flatMap_eq_nil_iff.2 fun _ _ => rfl)
  | false => rfl

theorem own_of_isLeaf {g : Grammar} {t : Tree} (h : t.isLeaf = true) : g.own t = [t] := by
  rw [own_eq, inside, List.isEmpty_iff.1 h, List.flatMap_nil, ite_self]

end Grammar

/-! ### What a node adds -/

namespace Complexity

variable {g : Grammar} {root : Tree}

/-- The parts in a choice that a node may have. -/
def Suits (g : Grammar) (t : Tree) : Role → Prop
  | .statement => g.construct? t ≠ some .elseIf
  | .chained => g.construct? t = some .branch
  | .clause => g.construct? t = some .elseIf ∨ g.construct? t = some .otherwise
  | .bareElse => g.construct? t ≠ some .branch ∧ g.construct? t ≠ some .elseIf ∧
      g.construct? t ≠ some .otherwise

theorem statementScore_cyclomatic (apart : g.Apart) {t : Tree}
    (leaf : t.isNamed = false → t.isLeaf = true) (h : g.construct? t ≠ some .elseIf) (p : Place) :
    (statementScore g t p).cyclomatic = if g.isDecision t then 1 else 0 := by
  cases hc : g.construct? t with
  | none =>
    rw [statementScore, hc, Grammar.isDecision, hc, plainScore]
    cases hn : t.isNamed with
    | false =>
      obtain ⟨hl, hg⟩ := Grammar.plain_of_isLeaf (g := g) (leaf hn)
      simp [hl, hg]
    | true =>
      cases hl : (g.logicalOperator? t).isSome with
      | false => simp
      | true => simp [apart.logical t hl]
  | some c =>
    have hn := Grammar.isNamed_of_construct? hc
    obtain ⟨hl, hg⟩ := apart.construct t c hc
    rw [statementScore, hc, Grammar.isDecision, hc, hn, hl, hg]
    cases c with
    | elseIf => exact absurd hc h
    | otherwise => simp [plainScore, hl, hg, Construct.isDecision]
    | _ => rfl

theorem statementScore_exits (t : Tree) (p : Place) :
    (statementScore g t p).exits = if g.isExit t then 1 else 0 := by
  rw [statementScore, Grammar.isExit]
  cases g.construct? t with
  | none => rfl
  | some c => cases c <;> rfl

/-- A node that suits its part adds one decision where it is one. -/
theorem score_cyclomatic (apart : g.Apart) {t : Tree} (leaf : t.isNamed = false → t.isLeaf = true)
    {p : Place} (suits : Suits g t p.role) :
    (score g ⟨t, p⟩).cyclomatic = if g.isDecision t then 1 else 0 := by
  have routine : g.isRoutine t = true → g.isDecision t = false := fun hr => by
    obtain ⟨hc, hl, hg⟩ := apart.routine t hr
    rw [Grammar.isDecision, hc, hl, hg]
    simp
  rw [score]
  cases hrole : p.role with
  | statement =>
    rw [hrole] at suits
    cases hr : g.isRoutine t with
    | false => simpa using statementScore_cyclomatic apart leaf suits p
    | true => simp [routine hr]
  | chained =>
    rw [hrole] at suits
    have hc : g.construct? t = some .branch := suits
    simp [Grammar.isDecision, hc, Grammar.isNamed_of_construct? hc, Construct.isDecision]
  | clause =>
    rw [hrole] at suits
    rcases suits with hc | hc
    · simp [Grammar.isDecision, hc, Grammar.isNamed_of_construct? hc, Construct.isDecision]
    · obtain ⟨hl, hg⟩ := apart.construct t _ hc
      simp [Grammar.isDecision, hc, hl, hg, Construct.isDecision]
  | bareElse =>
    rw [hrole] at suits
    cases hr : g.isRoutine t with
    | false => simpa using statementScore_cyclomatic apart leaf suits.2.1 p
    | true => simp [routine hr]

/-- A node that suits its part adds one exit where it is one. -/
theorem score_exits (apart : g.Apart) {t : Tree} {p : Place} (suits : Suits g t p.role) :
    (score g ⟨t, p⟩).exits = if g.isExit t then 1 else 0 := by
  have routine : g.isRoutine t = true → g.isExit t = false := fun hr => by
    rw [Grammar.isExit, (apart.routine t hr).1]
    rfl
  rw [score]
  cases hrole : p.role with
  | statement =>
    cases hr : g.isRoutine t with
    | false => simpa using statementScore_exits t p
    | true => simp [routine hr]
  | chained =>
    rw [hrole] at suits
    have hc : g.construct? t = some .branch := suits
    simp [Grammar.isExit, hc, Construct.isExit]
  | clause =>
    rw [hrole] at suits
    rcases suits with hc | hc <;> simp [Grammar.isExit, hc, Construct.isExit]
  | bareElse =>
    cases hr : g.isRoutine t with
    | false => simpa using statementScore_exits t p
    | true => simp [routine hr]

/-! ### The parts that the walk gives -/

theorem branch_of_goesOn {clause c : Tree} (h : goesOn g clause = true) (mem : c ∈ clause.children)
    (part : c.isPart = true) : g.construct? c = some .branch := by
  have member : c ∈ clause.parts := List.mem_filter.2 ⟨mem, part⟩
  rw [goesOn, Tree.onlyPart?] at h
  split at h
  · next only hparts =>
    rw [hparts, List.mem_singleton] at member
    rw [member]
    simpa using h
  · cases h

theorem suits_enterAlternative (c : Tree) : Suits g c (enterAlternative g c).2 := by
  rw [enterAlternative]
  split
  · assumption
  · exact Or.inl ‹_›
  · exact Or.inr ‹_›
  · next h₁ h₂ h₃ => exact ⟨h₁, h₂, h₃⟩

/-- The walk gives a child a part in a choice that it may have. -/
theorem suits_of_enter? {parent c : Tree} {role : Role} {earlier : List Tree} {e : Entry}
    (mem : c ∈ parent.children)
    (elseIf : g.construct? c = some .elseIf →
      c.hasField "alternative" = true ∧ g.construct? parent = some .branch)
    (h : enter? g parent role earlier c = some e) : Suits g c e.2 := by
  have outside : g.construct? parent ≠ some .branch → g.construct? c ≠ some .elseIf :=
    fun hp hc => hp (elseIf hc).2
  unfold enter? at h
  -- a clause with a condition, a last clause, a choice, anything else
  split at h
  · next hc =>
    rw [enterNamed_eq h]
    exact outside (by simp [hc])
  · next hc =>
    split at h
    · next hgoes =>
      split at h <;> cases h
      exact branch_of_goesOn hgoes mem ‹_›
    · rw [enterNamed_eq h]
      exact outside (by simp [hc])
  · split at h
    · cases h
      exact suits_enterAlternative c
    · next alternative =>
      rw [enterNamed_eq h]
      exact fun hc => alternative (elseIf hc).1
  · rw [enterNamed_eq h]
    exact outside ‹_›

/-! ### A measure of a routine is a count over its own nodes -/

/-- A part of the score tells a property of nodes: a node adds one to it where it has the property,
    and what is no part of its parent does not have it. -/
structure Tells (g : Grammar) (root : Tree) (amount : Score → Nat) (has : Tree → Bool) : Prop where
  amount_score : ∀ s ∈ root.sites, ∀ p : Place, Suits g s.tree p.role →
    amount (score g ⟨s.tree, p⟩) = if has s.tree then 1 else 0
  of_not_isPart : ∀ s ∈ root.sites, s.tree.isPart = false → has s.tree = false

/-- The sum of a part of the score over some visits. -/
def amountOf (g : Grammar) (amount : Score → Nat) (visits : List Visit) : Nat :=
  sumOf (visits.map fun v => amount (score g v))

theorem isLeaf_of_not_isPart (regular : g.Regular root) {s : Site} (hs : s ∈ root.sites)
    (h : s.tree.isPart = false) : s.tree.isLeaf = true := by
  rw [Tree.isPart, Bool.and_eq_false_iff, Bool.not_eq_false'] at h
  rcases h with h | h
  · exact regular.leaves s hs h
  · exact (regular.extras s hs h).1

section Count

variable {amount : Score → Nat} {has : Tree → Bool} (regular : g.Regular root)
  (tells : Tells g root amount has)

include regular tells

/-- The visits among the children of a site count the own nodes of what it holds, if those from each
    child count its own nodes. -/
theorem amountOf_visitsAmong {s : Site} (hs : s ∈ root.sites) (p : Place)
    (ih : ∀ c ∈ s.tree.children, ∀ u ∈ root.sites, u.tree = c → ∀ q : Place, Suits g c q.role →
      amountOf g amount (visitsFrom g q c) = (g.own c).countP has) :
    ∀ (earlier cs : List Tree), (∀ c ∈ cs, c ∈ s.tree.children) →
      amountOf g amount (visitsAmong g s.tree p earlier cs) = (cs.flatMap g.own).countP has
  | earlier, [], _ => by rw [visitsAmong]; rfl
  | earlier, c :: later, sub => by
    have mem := sub c List.mem_cons_self
    obtain ⟨i, hc⟩ := Tree.exists_site_of_child hs mem
    have step : amountOf g amount ((placeOf? g s.tree p earlier c later).elim [] fun q =>
        visitsFrom g q c) = (g.own c).countP has := by
      rw [placeOf?]
      cases h : enter? g s.tree p.role earlier c with
      | none =>
        have part := isPart_of_enter?_none h
        have leaf : c.isLeaf = true := isLeaf_of_not_isPart regular hc part
        have without : has c = false := tells.of_not_isPart _ hc part
        rw [Grammar.own_of_isLeaf leaf]
        simp [amountOf, without]
      | some e =>
        have suits := suits_of_enter? mem (regular.elseIfs _ hc) h
        exact ih c mem _ hc rfl _ suits
    have rest := amountOf_visitsAmong hs p ih (c :: earlier) later
      fun d hd => sub d (List.mem_cons_of_mem _ hd)
    rw [visitsAmong_cons, List.flatMap_cons, List.countP_append, ← step, ← rest]
    simp only [amountOf, List.map_append, sumOf_append]

theorem amountOf_visitsFrom (t : Tree) : ∀ s ∈ root.sites, s.tree = t → ∀ p : Place,
    Suits g t p.role → amountOf g amount (visitsFrom g p t) = (g.own t).countP has := by
  induction t using Tree.induct with
  | node label children ih =>
    rintro s hs hst p suits
    have here := tells.amount_score s hs p (hst ▸ suits)
    have below := amountOf_visitsAmong regular tells hs p (hst ▸ ih) [] children
      (hst ▸ fun _ h => h)
    rw [hst] at here below
    rw [visitsFrom_eq, Grammar.own_eq, List.countP_cons, amountOf, List.map_cons, sumOf_cons, here]
    cases g.isRoutine (.node label children) with
    | true => simp
    | false =>
      rw [amountOf] at below
      simp only [Bool.false_eq_true, if_false, below, Grammar.inside, Tree.children_node]
      exact Nat.add_comm _ _

/-- What a routine adds is a count over the own nodes of what it holds. -/
theorem amountOf_visits {s : Site} (hs : s ∈ root.sites) :
    amountOf g amount (visits g s.tree) = (g.inside s.tree).countP has :=
  amountOf_visitsAmong regular tells hs start
    (fun c _ => amountOf_visitsFrom regular tells c) [] s.tree.children fun _ h => h

end Count

end Complexity

/-! ### The own nodes of all routines -/

namespace Grammar

variable (g : Grammar) (has : Tree → Bool)

/-- The count of a property over the own nodes of what each routine among some sites holds. -/
def countInside (sites : List Site) : Nat :=
  sumOf ((sites.filter fun s => g.isRoutine s.tree).map fun s => (g.inside s.tree).countP has)

/-- The count of a property over the sites that have a routine around them. -/
def countWithin (sites : List Site) : Nat :=
  sites.countP fun s => s.above.any g.isRoutine && has s.tree

theorem countInside_append (xs ys : List Site) :
    g.countInside has (xs ++ ys) = g.countInside has xs + g.countInside has ys := by
  simp only [countInside, List.filter_append, List.map_append, sumOf_append]

theorem countWithin_append (xs ys : List Site) :
    g.countWithin has (xs ++ ys) = g.countWithin has xs + g.countWithin has ys :=
  List.countP_append

/-- The sites from a node with a routine around them are in a routine inside, or they are own nodes
    of the routine around the node. -/
theorem countInside_sitesFrom (t : Tree) : ∀ (above : List Tree) (way : List Nat),
    g.countInside has (t.sitesFrom above way)
      + (if above.any g.isRoutine then (g.own t).countP has else 0)
    = g.countWithin has (t.sitesFrom above way) := by
  induction t using Tree.induct with
  | node label children ih =>
    intro above way
    have among : ∀ (cs : List Tree) (index : Nat) (around : List Tree), (∀ c ∈ cs, c ∈ children) →
        g.countInside has (Tree.sitesAmong around way index cs)
          + (if around.any g.isRoutine then (cs.flatMap g.own).countP has else 0)
        = g.countWithin has (Tree.sitesAmong around way index cs) := by
      intro cs
      induction cs with
      | nil => intro index around _; simp [Tree.sitesAmong, countInside, countWithin]
      | cons c rest ihrest =>
        intro index around sub
        have first := ih c (sub c List.mem_cons_self) around (index :: way)
        have others := ihrest (index + 1) around fun d hd => sub d (List.mem_cons_of_mem _ hd)
        rw [Tree.sitesAmong, countInside_append, countWithin_append, ← first, ← others,
          List.flatMap_cons, List.countP_append]
        split <;> omega
    have below := among children 0 (.node label children :: above) fun _ h => h
    rw [Tree.sitesFrom_eq, Tree.children_node, ← List.singleton_append, countInside_append,
      countWithin_append, ← below, own_eq, List.countP_cons, inside, Tree.children_node]
    -- the node is a routine or not, and has a routine around it or not
    cases hr : g.isRoutine (.node label children) <;> cases ha : above.any g.isRoutine <;>
      simp [countInside, countWithin, inside, hr, ha] <;> omega

theorem countInside_sites (root : Tree) :
    g.countInside has root.sites = g.countWithin has root.sites :=
  countInside_sitesFrom g has root [] []

end Grammar

/-! ### Decisions and exits of a file -/

namespace Complexity

variable {g : Grammar} {root : Tree}

theorem construct?_of_not_isPart (regular : g.Regular root) {s : Site} (hs : s ∈ root.sites)
    (h : s.tree.isPart = false) : g.construct? s.tree = none := by
  rw [Grammar.construct?]
  rw [Tree.isPart, Bool.and_eq_false_iff, Bool.not_eq_false'] at h
  rcases h with h | h
  · simp [h]
  · have unlisted := (regular.extras s hs h).2
    rw [Grammar.lists, Bool.or_eq_false_iff] at unlisted
    rw [Option.isNone_iff_eq_none.1 (Option.isSome_eq_false_iff.1 unlisted.1), ite_self]

theorem tells_decision (apart : g.Apart) (regular : g.Regular root) :
    Tells g root (·.cyclomatic) g.isDecision where
  amount_score s hs _ suits := score_cyclomatic apart (regular.leaves s hs) suits
  of_not_isPart s hs h := by
    obtain ⟨hl, hg⟩ := Grammar.plain_of_isLeaf (g := g) (isLeaf_of_not_isPart regular hs h)
    simp [Grammar.isDecision, construct?_of_not_isPart regular hs h, hl, hg]

theorem tells_exit (apart : g.Apart) (regular : g.Regular root) :
    Tells g root (·.exits) g.isExit where
  amount_score _ _ _ suits := score_exits apart suits
  of_not_isPart s hs h := by
    simp [Grammar.isExit, construct?_of_not_isPart regular hs h]

/-- Where every routine is found, a measure that is a part of the scores of each routine adds up to
    a count over the sites that have a routine around them. -/
theorem sumOf_routines {source : List UInt8} {amount : Score → Nat} {has : Tree → Bool}
    (marks : ∀ p ∈ g.routines, g.marksRoutine p = true) (regular : g.Regular root)
    (finds : g.FindsRoutines root) (tells : Tells g root amount has)
    {measure : RoutineMetrics → Nat} (measures : ∀ r : Routine,
      measure (RoutineMetrics.of g source r) = amountOf g amount (visits g r.tree)) :
    sumOf ((FileMeasures.of g source root).routines.map measure)
      = g.countWithin has root.sites := by
  calc sumOf ((FileMeasures.of g source root).routines.map measure)
      = sumOf (((Routine.all g source root).map (·.site)).map fun s =>
          amountOf g amount (visits g s.tree)) := by
        rw [FileMeasures.of, List.map_map, List.map_map, List.map_map]
        exact congrArg sumOf (List.map_congr_left fun r _ => measures r)
    _ = sumOf ((root.sites.filter fun s => g.isRoutine s.tree).map fun s =>
          amountOf g amount (visits g s.tree)) :=
        sumOf_perm ((Routine.sites_perm source marks finds).map _)
    _ = g.countInside has root.sites := by
        rw [Grammar.countInside]
        refine congrArg sumOf (List.map_congr_left fun s hs => ?_)
        exact amountOf_visits regular tells (List.mem_filter.1 hs).1
    _ = g.countWithin has root.sites := g.countInside_sites has root

end Complexity

/-- No decision and no exit is lost or counted twice: the decisions of all routines of a file are
    the nodes that are a decision and have a routine around them, and so are the exits. -/
theorem decisions_counted_once (l : Language) (source : List UInt8) (root : Tree)
    (regular : l.grammar.Regular root) (finds : l.grammar.FindsRoutines root) :
    sumOf ((FileMeasures.of l.grammar source root).routines.map fun r => r.cyclomatic - 1)
        = l.grammar.countWithin l.grammar.isDecision root.sites ∧
      sumOf ((FileMeasures.of l.grammar source root).routines.map fun r => r.exits)
        = l.grammar.countWithin l.grammar.isExit root.sites := by
  constructor
  · refine Complexity.sumOf_routines l.marksRoutine regular finds
      (Complexity.tells_decision l.apart regular) fun r => ?_
    simp [RoutineMetrics.of, Complexity.of, Complexity.ofScores, Complexity.amountOf,
      Function.comp_def]
  · refine Complexity.sumOf_routines l.marksRoutine regular finds
      (Complexity.tells_exit l.apart regular) fun r => ?_
    simp [RoutineMetrics.of, Complexity.of, Complexity.ofScores, Complexity.amountOf,
      Function.comp_def]

open CodeMetrics.Tree in
/-- A routine with a chain of choices in a loop, and in the last of them a lambda with a choice of
    its own. -/
def loopWithLambda : Tree :=
  let condition := part "identifier" (some "condition") []
  let exits := [part "return_statement" none [word "return"]]
  let lambda := part "func_literal" none
    [word "func", part "block" (some "body")
      [part "if_statement" none [condition, part "block" (some "consequence") exits]]]
  let both := part "binary_expression" (some "condition")
    [part "identifier" (some "left") [],
     .node { kind := "&&", field := some "operator", named := false } [],
     part "identifier" (some "right") []]
  let chain := part "if_statement" none
    [both, part "block" (some "consequence") [], part "if_statement" (some "alternative")
      [condition, part "block" (some "consequence") [],
       part "block" (some "alternative") [lambda]]]
  part "source_file" none
    [part "function_declaration" none
      [word "func", part "identifier" (some "name") [], part "block" (some "body")
        (part "for_statement" none
          [part "block" (some "body") [.node { kind := "comment", extra := true } [], chain]]
          :: exits)]]

theorem decisions_counted_once_loopWithLambda :
    Grammar.go.Regular loopWithLambda ∧ Grammar.go.FindsRoutines loopWithLambda ∧
      sumOf ((FileMeasures.of .go [] loopWithLambda).routines.map fun r => r.cyclomatic - 1) = 5 ∧
      sumOf ((FileMeasures.of .go [] loopWithLambda).routines.map fun r => r.exits) = 2 := by
  have regular : Grammar.go.Regular loopWithLambda :=
    ⟨by decide +kernel, by decide +kernel, by decide +kernel⟩
  have finds : Grammar.go.FindsRoutines loopWithLambda := by
    unfold Grammar.FindsRoutines
    decide +kernel
  obtain ⟨decisions, exits⟩ := decisions_counted_once .go [] loopWithLambda regular finds
  exact ⟨regular, finds, decisions.trans (by decide +kernel), exits.trans (by decide +kernel)⟩

end CodeMetrics
