import CodeMetrics.Proofs.Endings
import CodeMetrics.Proofs.Nesting

/-! Routines without decisions.

    A routine in a straight line has no construct but an exit, and that is the last thing that its
    body does. It has the least measures that a routine can have, with one exception: where the body
    is the exit itself, and not something that holds it, the exit counts as early. -/

namespace CodeMetrics

/-- The last thing that the body of a routine does: the body itself, and the last part of such a
    thing. -/
inductive LastOfBody (routine : Tree) : Site → Prop
  | body {index : Nat} {c : Tree} (first : routine.indexOf? "body" = some index)
      (child : routine.children[index]? = some c) :
      LastOfBody routine (Site.down ⟨routine, [], []⟩ index c)
  | part {s : Site} {index : Nat} {c : Tree} (around : LastOfBody routine s)
      (child : s.tree.children[index]? = some c) (last : s.tree.endsAt index = true) :
      LastOfBody routine (s.down index c)

/-- A routine whose own nodes are no decisions and nothing else that the measures count but one exit
    at most, which is the last thing that the body does. -/
structure StraightLine (g : Grammar) (routine : Tree) : Prop where
  plain : ∀ s ∈ g.ownSites routine,
    (g.construct? s.tree = none ∨ g.construct? s.tree = some .exit) ∧
      g.logicalOperator? s.tree = none ∧ g.isGuarded s.tree = false
  one : ∀ s ∈ g.ownSites routine, ∀ u ∈ g.ownSites routine, g.construct? s.tree = some .exit →
    g.construct? u.tree = some .exit → s = u
  last : ∀ s ∈ g.ownSites routine, g.construct? s.tree = some .exit → LastOfBody routine s

/-- A routine is in a straight line if all its exits have the way of one that comes last. -/
theorem StraightLine.of_way {g : Grammar} {routine : Tree} {exit : Site}
    (there : exit ∈ routine.sites) (last : LastOfBody routine exit)
    (plain : ∀ s ∈ g.ownSites routine,
      (g.construct? s.tree = none ∨ g.construct? s.tree = some .exit) ∧
        g.logicalOperator? s.tree = none ∧ g.isGuarded s.tree = false)
    (ways : ∀ s ∈ g.ownSites routine, g.construct? s.tree = some .exit → s.way = exit.way) :
    StraightLine g routine := by
  have same : ∀ s ∈ g.ownSites routine, g.construct? s.tree = some .exit → s = exit :=
    fun s own exits => Tree.eq_of_way (List.mem_filter.1 own).1 there (ways s own exits)
  refine ⟨plain, fun s hs u hu exits exits' => ?_, fun s hs exits => ?_⟩
  · rw [same s hs exits, same u hu exits']
  · rw [same s hs exits]
    exact last

namespace Complexity

variable {g : Grammar} {routine : Tree}

/-! ### The body -/

theorem statementsWay?_of_body {index : Nat} {body : Tree}
    (first : routine.indexOf? "body" = some index) (child : routine.children[index]? = some body) :
    routine.statementsWay?
      = if isWrapper body then some [body.children.findIdx Tree.isPart, index]
        else some [index] := by
  rw [Tree.statementsWay?, first]
  show (routine.children[index]?).bind _ = _
  rw [child]
  rfl

/-- The last part of a body that holds nothing but a list of statements is that list. -/
theorem statements_of_wrapper {body c : Tree} {index : Nat} (wrapper : isWrapper body = true)
    (child : body.children[index]? = some c) (last : body.endsAt index = true) :
    body.children.findIdx Tree.isPart = index ∧ c.kind = "statement_list" := by
  obtain ⟨earlier, later, split, rfl⟩ := Tree.split_of_getElem? child
  have part : c.isPart = true := by
    rw [Tree.endsAt, child, Bool.and_eq_true] at last
    exact last.1
  rw [isWrapper, Option.any_eq_true] at wrapper
  obtain ⟨only, one, kind⟩ := wrapper
  refine ⟨findIdx_isPart split one part, ?_⟩
  have member : c ∈ body.parts := List.mem_filter.2 ⟨List.mem_of_getElem? child, part⟩
  rw [Tree.onlyPart?] at one
  split at one
  · next parts =>
    cases one
    rw [parts, List.mem_singleton] at member
    rw [member]
    exact eq_of_beq kind
  · cases one

theorem lastOfBody_down_cases {s : Site} {index : Nat} {c : Tree}
    (h : LastOfBody routine (s.down index c)) :
    (s = ⟨routine, [], []⟩ ∧ routine.indexOf? "body" = some index) ∨
      (LastOfBody routine s ∧ s.tree.endsAt index = true) := by
  generalize same : s.down index c = u at h
  cases h with
  | body first _ =>
    obtain ⟨rfl, rfl, rfl⟩ := Site.down_inj same
    exact Or.inl ⟨rfl, first⟩
  | part around _ last =>
    obtain ⟨rfl, rfl, rfl⟩ := Site.down_inj same
    exact Or.inr ⟨around, last⟩

/-- A body that is an exit is visited, and early. -/
theorem early_of_body (outer : g.construct? routine = none) {index : Nat} {body : Tree}
    (child : routine.children[index]? = some body) (exit : g.construct? body = some .exit) :
    ∃ v, (Site.down ⟨routine, [], []⟩ index body).visit? g = some v ∧ early? g v = some true := by
  have hs : Site.down ⟨routine, [], []⟩ index body ∈ routine.sites :=
    Tree.mem_sites_of_child (Tree.self_mem_sitesFrom _ _ _) child
  obtain ⟨v, visited⟩ : ∃ v, (Site.down ⟨routine, [], []⟩ index body).visit? g = some v := by
    obtain ⟨earlier, later, split, rfl⟩ := Tree.split_of_getElem? child
    rw [Site.visit?, place?_down split]
    simp [Site.place?, Site.placeFrom?, Site.down, placeOf?, enter?_plain, outer, enterNamed,
      Grammar.isNamed_of_construct? exit]
  have tree := (Site.visit?_eq_some g visited).2.1
  refine ⟨v, visited, early?_of_exit (tree ▸ exit) fun late => ?_⟩
  -- what the routine ends after has a longer way than the statements, and they are in the body
  obtain ⟨way, statements, lt⟩ :=
    ((early?_eq_some_false_iff hs visited exit).1 late).below_statements
  obtain ⟨_, _, suffix⟩ := statementsWay?_eq_some statements
  exact absurd suffix.length_le (Nat.not_le.2 lt)

/-! ### The walk of such a routine -/

/-- Where the last thing that the body of a routine does can stand. -/
inductive LastFound (g : Grammar) (routine : Tree) (s : Site) : Prop
  /-- In an exit. -/
  | insideExit {u : Site} (own : u ∈ g.ownSites routine) (exit : g.construct? u.tree = some .exit)
      (around : u.way.length < s.way.length)
  /-- It is the body. -/
  | body {index : Nat} (first : routine.indexOf? "body" = some index)
      (child : routine.children[index]? = some s.tree) (way : s.way = [index])
  /-- It is the list of statements that the body holds. -/
  | list (statements : routine.statementsWay? = some s.way) (kind : s.tree.kind = "statement_list")
  /-- The routine ends after it. -/
  | concluding (concluding : Concluding g (fun _ => True) routine s)

section Walk

variable (straight : StraightLine g routine) (outer : g.construct? routine = none)

include straight outer

/-- The walk gives each node the part of a statement, and comes to own nodes of the routine only. -/
theorem own_of_place? : ∀ s ∈ routine.sites, ∀ p, s.place? g = some p →
    p.role = .statement ∧ (s.above = [] → s.tree = routine) ∧
      (s.above ≠ [] → s ∈ g.ownSites routine) := by
  refine Tree.sites_induct ?_ ?_
  · rintro p placed
    obtain rfl : start = p := Option.some.inj placed
    exact ⟨rfl, fun _ => rfl, fun inner => absurd rfl inner⟩
  · rintro s hs ih index c child q placed
    obtain ⟨earlier, later, p, split, rfl, before, inner, entered⟩ :=
      place?_down_eq_some child placed
    obtain ⟨_, top, own⟩ := ih p before
    have construct : g.construct? s.tree = none ∨ g.construct? s.tree = some .exit := by
      by_cases above : s.above = []
      · exact Or.inl (top above ▸ outer)
      · exact (straight.plain s (own above)).1
    obtain ⟨e, entry, rfl⟩ := Option.map_eq_some_iff.1 entered
    have plain : ∀ k, k ≠ .exit → g.construct? s.tree ≠ some k := fun k exit h => by
      rcases construct with none | some
      · rw [none] at h; cases h
      · rw [some] at h; exact exit (Option.some.inj h).symm
    have named : c.isNamed = true :=
      (named_of_enter? entry).resolve_right fun h => plain .branch (by decide) h.2
    rw [enter?_plain (plain _ (by decide)) fun _ => ⟨plain _ (by decide), plain _ (by decide)⟩]
      at entry
    refine ⟨congrArg Prod.snd (enterNamed_eq entry), fun h => absurd h (List.cons_ne_nil _ _), fun _ => ?_⟩
    refine List.mem_filter.2 ⟨Tree.mem_sites_of_child hs child, ?_⟩
    by_cases above : s.above = []
    · simp [Site.isOwn, Site.down, above, named]
    · exact isOwn_down (List.mem_filter.1 (own above)).2 (inner above) _ named

/-- Where the last thing that the body does stands to the end of the routine. -/
theorem lastFound : ∀ s ∈ routine.sites, ∀ p, s.place? g = some p → LastOfBody routine s →
    LastFound g routine s := by
  refine Tree.sites_induct ?_ ?_
  · intro p _ h
    generalize top : (⟨routine, [], []⟩ : Site) = u at h
    cases h <;> cases top
  · rintro s hs ih index c child q placed h
    obtain ⟨_, _, p, _, _, before, inner, _⟩ := place?_down_eq_some child placed
    rcases lastOfBody_down_cases h with ⟨rfl, first⟩ | ⟨around, last⟩
    · exact .body first child rfl
    cases ih p before around with
    | insideExit own exit lt => exact .insideExit own exit (Nat.lt_succ_of_lt lt)
    | body first body way =>
      have statements := statementsWay?_of_body first body
      cases wrapper : isWrapper s.tree with
      | true =>
        obtain ⟨idx, kind⟩ := statements_of_wrapper wrapper child last
        rw [wrapper, if_pos rfl, idx] at statements
        exact .list (by rw [statements, ← way]; rfl) kind
      | false =>
        rw [wrapper] at statements
        exact .concluding (.statement hs (by rw [statements, way]; rfl) child last)
    | list statements _ => exact .concluding (.statement hs statements child last)
    | concluding concluding =>
      have above := concluding.above_ne_nil
      have own := (own_of_place? straight outer s hs p before).2.2 above
      rcases (straight.plain s own).1 with none | exit
      · exact .concluding (.part concluding (inner above) (Or.inl none) child last)
      · exact .insideExit own exit (Nat.lt_succ_self _)

/-- An early exit of the routine is its body. -/
theorem body_of_early (list : g.constructs.lookup "statement_list" = none) {s : Site}
    (hs : s ∈ routine.sites) {v : Visit} (visited : s.visit? g = some v)
    (early : early? g v = some true) :
    ∃ index, routine.indexOf? "body" = some index ∧ routine.children[index]? = some s.tree ∧
      s.way = [index] ∧ g.construct? s.tree = some .exit := by
  obtain ⟨above, tree, placed⟩ := Site.visit?_eq_some g visited
  have exit : g.construct? s.tree = some .exit := by
    rw [early?, tree] at early
    split at early
    · assumption
    · cases early
  have own := (own_of_place? straight outer s hs _ placed).2.2 above
  have off : ¬ Concluding g (fun _ => True) routine s := fun h => by
    rw [(early?_eq_some_false_iff hs visited exit).2 h] at early
    cases early
  cases lastFound straight outer s hs _ placed (straight.last s own exit) with
  | insideExit own' exit' lt =>
    rw [straight.one _ own' s own exit' exit] at lt
    exact absurd lt (Nat.lt_irrefl _)
  | body first body way => exact ⟨_, first, body, way, exit⟩
  | list _ kind =>
    rw [Grammar.construct?, kind, list, ite_self] at exit
    cases exit
  | concluding concluding => exact absurd concluding off

end Walk

/-! ### The measures of such a routine -/

/-- A visit to a statement that is no construct but an exit counts where the exit is early. -/
theorem score_of_plain (apart : g.Apart) {v : Visit} (role : v.place.role = .statement)
    (plain : (g.construct? v.tree = none ∨ g.construct? v.tree = some .exit) ∧
      g.logicalOperator? v.tree = none ∧ g.isGuarded v.tree = false) :
    (score g v).cyclomatic = 0 ∧ (score g v).reach = 0 ∧
      (score g v).cognitive = if early? g v == some true then 1 else 0 := by
  obtain ⟨construct, logical, guarded⟩ := plain
  rcases construct with construct | construct
  · cases g.isRoutine v.tree <;>
      simp [score, role, statementScore, construct, plainScore, logical, guarded, early?]
  · have inner := not_isRoutine_of_construct apart construct
    by_cases tail : v.place.flow = .tail <;>
      simp [score, role, inner, statementScore, construct, early?, tail]

theorem tallyOf_plain {vs : List Visit} (h : ∀ v ∈ vs, (score g v).cyclomatic = 0 ∧
    (score g v).reach = 0 ∧ (score g v).cognitive = if early? g v == some true then 1 else 0) :
    (tallyOf g vs).cyclomatic = 0 ∧ (tallyOf g vs).reach = 0 ∧
      (tallyOf g vs).cognitive = vs.countP fun v => early? g v == some true := by
  induction vs with
  | nil => exact ⟨rfl, rfl, rfl⟩
  | cons v rest ih =>
    obtain ⟨cyclomatic, reach, cognitive⟩ := h v List.mem_cons_self
    obtain ⟨cyclomatic', reach', cognitive'⟩ := ih fun u hu => h u (List.mem_cons_of_mem _ hu)
    refine ⟨?_, ?_, ?_⟩
    · show (score g v).cyclomatic + _ = 0
      rw [cyclomatic, cyclomatic']
    · show max (score g v).reach _ = 0
      rw [reach, reach']
      rfl
    · show (score g v).cognitive + _ = _
      rw [cognitive, cognitive', List.countP_cons, Nat.add_comm]

/-- Of the visits of such a routine one is to an early exit where the body is an exit, else none. -/
theorem countP_early (straight : StraightLine g routine) (outer : g.construct? routine = none)
    (list : g.constructs.lookup "statement_list" = none) :
    (visits g routine).countP (fun v => early? g v == some true)
      = if (routine.child? "body").any (fun body => g.construct? body == some .exit) then 1
        else 0 := by
  have visit_of_early : ∀ s : Site,
      ((s.visit? g).map fun v => early? g v == some true).getD false = true →
        ∃ v, s.visit? g = some v ∧ early? g v = some true := by
    intro s h
    cases visit : s.visit? g with
    | none => rw [visit] at h; cases h
    | some v => rw [visit] at h; exact ⟨v, rfl, eq_of_beq h⟩
  rw [visits_eq_filterMap, List.countP_filterMap, Tree.child?,
    List.find?_eq_bind_findIdx?_getElem?]
  split
  · next exit =>
    obtain ⟨body, found, exit⟩ := (Option.any_eq_true _ _).1 exit
    obtain ⟨index, first, child⟩ := Option.bind_eq_some_iff.1 found
    have exit := eq_of_beq exit
    obtain ⟨v, visited, early⟩ := early_of_body outer child exit
    have hs : Site.down ⟨routine, [], []⟩ index body ∈ routine.sites :=
      Tree.mem_sites_of_child (Tree.self_mem_sitesFrom _ _ _) child
    have only : ∀ s ∈ routine.sites,
        ((s.visit? g).map fun v => early? g v == some true).getD false = true
          ↔ (s.way == [index]) = true := by
      intro s hs'
      rw [beq_iff_eq]
      constructor
      · intro h
        obtain ⟨u, visit, early'⟩ := visit_of_early s h
        obtain ⟨i, first', _, way, _⟩ := body_of_early straight outer list hs' visit early'
        rw [way, Option.some.inj (first'.symm.trans first)]
      · intro way
        obtain rfl := Tree.eq_of_way hs' hs way
        rw [visited, Option.map_some, early]
        rfl
    rw [List.countP_congr only]
    have := List.count_eq_one_of_mem (Tree.ways_nodup routine) (List.mem_map_of_mem hs)
    rwa [List.count_eq_countP, List.countP_map] at this
  · next exit =>
    refine List.countP_eq_zero.2 fun s hs h => exit ?_
    obtain ⟨u, visit, early⟩ := visit_of_early s h
    obtain ⟨i, first, child, _, exits⟩ := body_of_early straight outer list hs visit early
    have body := Option.bind_eq_some_iff.2 ⟨i, first, child⟩
    exact (Option.any_eq_true _ _).2 ⟨s.tree, body, beq_iff_eq.2 exits⟩

end Complexity

theorem Language.lookup_statement_list (l : Language) :
    l.grammar.constructs.lookup "statement_list" = none := by
  cases l <;> decide

/-- A routine in a straight line has a cyclomatic complexity of one, no nesting and a cognitive
    complexity of zero, unless its body is itself the exit: then that counts as early, and the
    cognitive complexity is one. -/
theorem straightLine_scores (l : Language) (routine : Tree)
    (unit : l.grammar.isRoutine routine = true) (straight : StraightLine l.grammar routine) :
    (Complexity.of l.grammar routine).cyclomatic = 1 ∧
      (Complexity.of l.grammar routine).nestingDepth = 0 ∧
      (Complexity.of l.grammar routine).cognitive
        = if (routine.child? "body").any (fun body => l.grammar.construct? body == some .exit)
          then 1 else 0 := by
  have outer := (l.apart.routine routine unit).1
  have plain : ∀ v ∈ Complexity.visits l.grammar routine,
      (Complexity.score l.grammar v).cyclomatic = 0 ∧ (Complexity.score l.grammar v).reach = 0 ∧
        (Complexity.score l.grammar v).cognitive
          = if Complexity.early? l.grammar v == some true then 1 else 0 := by
    intro v hv
    rw [Complexity.visits_eq_filterMap] at hv
    obtain ⟨s, hs, visited⟩ := List.mem_filterMap.1 hv
    obtain ⟨above, tree, placed⟩ := Site.visit?_eq_some _ visited
    obtain ⟨role, _, own⟩ := Complexity.own_of_place? straight outer s hs _ placed
    exact Complexity.score_of_plain l.apart role (tree ▸ straight.plain s (own above))
  obtain ⟨cyclomatic, reach, cognitive⟩ := Complexity.tallyOf_plain plain
  rw [Complexity.of_eq]
  refine ⟨congrArg (1 + ·) cyclomatic, reach, cognitive.trans ?_⟩
  exact Complexity.countP_early straight outer l.lookup_statement_list

open CodeMetrics.Tree in
/-- A function whose block holds a list of two statements, the last of them an exit, and a
    comment. -/
def callThenExit : Tree :=
  part "function_declaration" none
    [word "func", part "identifier" (some "name") [], part "block" (some "body")
      [part "statement_list" none
        [part "expression_statement" none [part "call_expression" none []],
         part "return_statement" none [word "return"]],
       .node { kind := "comment", extra := true } []]]

theorem straightLine_scores_callThenExit :
    Grammar.go.isRoutine callThenExit = true ∧ StraightLine .go callThenExit ∧
      (Complexity.of .go callThenExit).cyclomatic = 1 ∧
      (Complexity.of .go callThenExit).nestingDepth = 0 ∧
      (Complexity.of .go callThenExit).cognitive = 0 := by
  have routine : Grammar.go.isRoutine callThenExit = true := by decide +kernel
  have last : LastOfBody callThenExit (callThenExit.sites.getD 7 ⟨callThenExit, [], []⟩) :=
    .part (.part (.body rfl rfl) rfl rfl) rfl rfl
  have straight : StraightLine .go callThenExit :=
    .of_way (List.mem_of_getElem? (rfl : callThenExit.sites[7]? = some _)) last
      (by decide +kernel) (by decide +kernel)
  obtain ⟨cyclomatic, depth, cognitive⟩ := straightLine_scores .go callThenExit routine straight
  exact ⟨routine, straight, cyclomatic, depth, cognitive.trans (by decide +kernel)⟩

open CodeMetrics.Tree in
/-- A closure whose body is an exit: `|x| return x`. -/
def exitingClosure : Tree :=
  part "closure_expression" none
    [part "closure_parameters" (some "parameters") [word "|", part "identifier" none [], word "|"],
     part "return_expression" (some "body") [word "return", part "identifier" none []]]

/-- A routine in a straight line may have a cognitive complexity of one. -/
theorem exitingClosure_scores_one :
    Grammar.rust.isRoutine exitingClosure = true ∧ StraightLine .rust exitingClosure ∧
      (Complexity.of .rust exitingClosure).cognitive = 1 := by
  have last : LastOfBody exitingClosure (exitingClosure.sites.getD 5 ⟨exitingClosure, [], []⟩) :=
    .body rfl rfl
  have straight : StraightLine .rust exitingClosure :=
    .of_way (List.mem_of_getElem? (rfl : exitingClosure.sites[5]? = some _)) last
      (by decide +kernel) (by decide +kernel)
  exact ⟨by decide +kernel, straight, by decide +kernel⟩

end CodeMetrics
