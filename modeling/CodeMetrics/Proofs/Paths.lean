import CodeMetrics.Proofs.Constructs
import CodeMetrics.Proofs.Decisions

/-! Places in a routine, told from each node outwards.

    The walk of a routine carries levels, a part in a choice and a distance to the end downwards.
    Here they are read off the path from the routine to a node: its level is the number of edges on
    the path that raise it, its part in a choice follows from the node right around it, and the
    routine ends after it where every step on the path is the last of its kind. The place that the
    walk gives to a child is the one that its path tells, where it gives one to the node around
    it. -/

namespace CodeMetrics

/-! ### Children by their index -/

namespace Tree

/-- The index of the first child in a field. -/
def indexOf? (t : Tree) (field : String) : Option Nat := t.children.findIdx? (hasField field)

/-- Whether the child at an index is the last part. -/
def endsAt (t : Tree) (index : Nat) : Bool :=
  t.children[index]?.any isPart && !(t.children.drop (index + 1)).any isPart

/-- The way from a routine to the node whose parts are its statements. -/
def statementsWay? (routine : Tree) : Option (List Nat) := do
  let index ← routine.indexOf? "body"
  let body ← routine.children[index]?
  if Complexity.isWrapper body then some [body.children.findIdx isPart, index] else some [index]

end Tree

/-! ### What a path tells -/

namespace Site

open Complexity (goesOn)

variable (g : Grammar)

/-- Whether a node is an alternative of a choice. -/
def isAlternative (s : Site) : Bool :=
  s.tree.hasField "alternative" && s.above.head?.bind g.construct? == some .branch

/-- Whether a node stands in the last clause of a choice, and that holds nothing but a choice. -/
def inChainedElse : Site → Bool
  | ⟨_, parent :: above, _ :: way⟩ =>
    g.construct? parent == some .otherwise && isAlternative g ⟨parent, above, way⟩ && goesOn g parent
  | _ => false

/-- Whether a choice goes on with the choice around it. -/
def continuesChain (s : Site) : Bool := s.isAlternative g || s.inChainedElse g

/-- Whether a node is a choice or a clause of one. -/
def isChoice (t : Tree) : Bool :=
  g.construct? t == some .branch || g.construct? t == some .elseIf
    || g.construct? t == some .otherwise

/-- Whether the child of a node at an index stands one level deeper; `alternative` tells whether
    the node is an alternative of a choice. -/
def raisesFrom (alternative : Bool) (parent : Tree) (index : Nat) (child : Tree) : Bool :=
  match g.construct? parent with
  | some .switch | some .loop | some .handler | some .ternary => true
  | some .branch =>
    if child.hasField "alternative" then !isChoice g child
    else parent.indexOf? "condition" != some index
  | some .elseIf => alternative && parent.indexOf? "condition" != some index
  | some .otherwise => alternative && !goesOn g parent
  | _ => false

/-- Whether a node stands one level deeper than the node right around it. -/
def raises : Site → Bool
  | ⟨t, parent :: above, index :: way⟩ =>
    raisesFrom g (isAlternative g ⟨parent, above, way⟩) parent index t
  | _ => false

/-- Whether the node right around a node is a choice inside an expression. -/
def inTernary (s : Site) : Bool := s.above.head?.bind g.construct? == some .ternary

/-- The nodes from a node outwards, each with what is around it. -/
def pathFrom : Tree → List Tree → List Nat → List Site
  | t, parent :: above, index :: way =>
    ⟨t, parent :: above, index :: way⟩ :: pathFrom parent above way
  | t, above, way => [⟨t, above, way⟩]

/-- The path from a node to the outermost node around it. -/
def path (s : Site) : List Site := pathFrom s.tree s.above s.way

/-- The levels around a node. -/
def nesting (s : Site) : Nat := s.path.countP (raises g)

/-- The levels of nested blocks around a node: a choice inside an expression is none. -/
def depth (s : Site) : Nat := s.path.countP fun u => u.raises g && !u.inTernary g

/-- Whether the child of a node at an index is the last thing that the node does. -/
def comesLast (parent : Tree) (index : Nat) : Bool :=
  match g.construct? parent with
  | some .branch | some .elseIf => parent.indexOf? "condition" != some index
  | some .otherwise | none => parent.endsAt index
  | some _ => false

/-- Whether a routine ends after a node, by the nodes around it and the way to it: each is the last
    part of the next one, or a branch of a choice, up to the statements of the routine. -/
def endsFrom (routine : Tree) : List Tree → List Nat → Bool
  | parent :: above, index :: way =>
    if routine.statementsWay? = some way then parent.endsAt index
    else !g.isRoutine parent && comesLast g parent index && endsFrom routine above way
  | _, _ => false

/-- Whether a routine ends after a node. -/
def ends (routine : Tree) (s : Site) : Bool := endsFrom g routine s.above s.way

/-- Whether a logical operation is the first of its run. -/
def startsRun (s : Site) : Bool :=
  (g.logicalOperator? s.tree).isSome
    && s.above.head?.bind g.logicalOperator? != g.logicalOperator? s.tree

end Site

namespace Complexity

variable {g : Grammar} {routine : Tree}

/-! ### The place that a path tells -/

/-- The part in a choice that a path tells. -/
def roleOf (g : Grammar) (s : Site) : Role :=
  if s.isAlternative g then
    match g.construct? s.tree with
    | some .branch => .chained
    | some .elseIf | some .otherwise => .clause
    | _ => .bareElse
  else if s.inChainedElse g then .chained else .statement

/-- How a path tells where a node stands to the end of the routine. -/
def FlowAt (routine : Tree) (s : Site) : Flow → Prop
  | .routine => s = ⟨routine, [], []⟩
  | .wrapper => ∃ index, routine.statementsWay? = some (index :: s.way) ∧
      s.tree.children.findIdx Tree.isPart = index ∧ isWrapper s.tree = true
  | .body => routine.statementsWay? = some s.way
  | .tail | .early => ∀ way, routine.statementsWay? = some way → ¬ s.way <:+ way

/-- The walk has given a node the place that its path tells. -/
structure PlacedAt (g : Grammar) (routine : Tree) (s : Site) (p : Place) : Prop where
  nesting : p.nesting = s.nesting g
  depth : p.depth = s.depth g
  role : p.role = roleOf g s
  chained : p.role = .chained → g.construct? s.tree = some .branch
  flow : FlowAt routine s p.flow
  ends : s.ends g routine = true ↔ p.flow = .tail
  run : p.run = s.above.head?.bind g.logicalOperator?

/-! ### Children by what stands before them -/

section Children

variable {t c : Tree} {earlier later : List Tree}

theorem isFirstIn_eq (split : t.children = earlier.reverse ++ c :: later) (field : String) :
    isFirstIn field earlier c = (t.indexOf? field == some earlier.length) := by
  rw [isFirstIn, Tree.indexOf?, split, List.findIdx?_append, List.length_reverse]
  cases before : earlier.reverse.findIdx? (Tree.hasField field) with
  | some k =>
    -- another child is in the field before this one
    obtain ⟨lt, has, _⟩ := List.findIdx?_eq_some_iff_getElem.1 before
    have any : earlier.any (Tree.hasField field) = true :=
      List.any_eq_true.2 ⟨_, List.mem_reverse.1 (List.getElem_mem lt), has⟩
    rw [List.length_reverse] at lt
    rw [any, Bool.not_true, Bool.and_false, Option.some_or]
    exact (beq_false_of_ne fun h => by injection h; omega).symm
  | none =>
    have none : earlier.any (Tree.hasField field) = false := by
      rw [List.findIdx?_eq_none_iff] at before
      rw [List.any_eq_false]
      exact fun e he => by simpa using before e (List.mem_reverse.2 he)
    rw [none, Bool.not_false, Bool.and_true, Option.none_or, List.findIdx?_cons]
    cases c.hasField field with
    | true => simp
    | false =>
      cases later.findIdx? (Tree.hasField field) <;> simp

theorem isLastPart_eq (split : t.children = earlier.reverse ++ c :: later) :
    isLastPart c later = t.endsAt earlier.length := by
  have here : t.children[earlier.length]? = some c := by
    rw [split, ← List.length_reverse, List.getElem?_append_right (Nat.le_refl _), Nat.sub_self]
    rfl
  have after : t.children.drop (earlier.length + 1) = later := by
    rw [split, ← List.length_reverse, List.drop_length_add_append]
    rfl
  rw [isLastPart, Tree.endsAt, here, after]
  rfl

/-- A part of a node that has only one is found first. -/
theorem findIdx_isPart (split : t.children = earlier.reverse ++ c :: later) {only : Tree}
    (one : t.onlyPart? = some only) (part : c.isPart = true) :
    t.children.findIdx Tree.isPart = earlier.length := by
  have parts : t.parts = [only] := by
    rw [Tree.onlyPart?] at one
    split at one
    · next parts => cases one; exact parts
    · cases one
  rw [Tree.parts, split, List.filter_append, List.filter_cons_of_pos part] at parts
  have before : earlier.reverse.filter Tree.isPart = [] := by
    have length := congrArg List.length parts
    simp only [List.length_append, List.length_cons, List.length_nil] at length
    exact List.length_eq_zero_iff.1 (by omega)
  have no : ∀ e ∈ earlier.reverse, ¬ e.isPart = true := List.filter_eq_nil_iff.1 before
  have idx : earlier.reverse.findIdx Tree.isPart = earlier.reverse.length :=
    List.findIdx_eq_length.2 fun e he => Bool.eq_false_iff.2 (no e he)
  rw [split, List.findIdx_append, idx, if_neg (Nat.lt_irrefl _), List.findIdx_cons, part]
  simp

end Children

/-! ### How a child is entered -/

section Entry

variable {s : Site} {c : Tree} {earlier later : List Tree}

@[simp] theorem tree_down (s : Site) (index : Nat) (c : Tree) : (s.down index c).tree = c := rfl

theorem isAlternative_down (s : Site) (index : Nat) (c : Tree) :
    (s.down index c).isAlternative g
      = (c.hasField "alternative" && g.construct? s.tree == some .branch) := rfl

theorem inChainedElse_down (s : Site) (index : Nat) (c : Tree) :
    (s.down index c).inChainedElse g
      = (g.construct? s.tree == some .otherwise && s.isAlternative g && goesOn g s.tree) := rfl

theorem inTernary_down (s : Site) (index : Nat) (c : Tree) :
    (s.down index c).inTernary g = (g.construct? s.tree == some .ternary) := rfl

theorem raises_down (s : Site) (index : Nat) (c : Tree) :
    (s.down index c).raises g = Site.raisesFrom g (s.isAlternative g) s.tree index c := rfl

/-- The levels that a node stands deeper than the node right around it. -/
def levelsAt (g : Grammar) (u : Site) : Nat × Nat :=
  (if u.raises g then 1 else 0, if u.raises g && !u.inTernary g then 1 else 0)

/-- Whether the walk enters a node, as its path tells. -/
def isEntered (g : Grammar) (u : Site) : Bool :=
  u.tree.isNamed && (!u.inChainedElse g || u.tree.isPart)

/-- How the walk enters a node, if it does, as its path tells. -/
def entryAt? (g : Grammar) (u : Site) : Option Entry :=
  if isEntered g u then some (levelsAt g u, roleOf g u) else none

/-- A node that is no part of a choice is entered where it is named. -/
theorem entryAt?_statement {u : Site} (alternative : u.isAlternative g = false)
    (chained : u.inChainedElse g = false) : entryAt? g u = enterNamed (levelsAt g u) u.tree := by
  simp [entryAt?, isEntered, enterNamed, roleOf, alternative, chained]

theorem levelsAt_of_raises {u : Site} (ternary : u.inTernary g = false) :
    levelsAt g u = if u.raises g then (1, 1) else (0, 0) := by
  rw [levelsAt, ternary]
  cases u.raises g <;> rfl

theorem isAlternative_of_clause (h : roleOf g s = .clause) : s.isAlternative g = true := by
  by_contra no
  rw [roleOf, if_neg no] at h
  split at h <;> cases h

/-- What is in no clause of a choice and in no choice stands as deep as its construct tells. -/
theorem levelsAt_plain (branch : g.construct? s.tree ≠ some .branch)
    (clause : s.isAlternative g = true → g.construct? s.tree ≠ some .elseIf ∧
      g.construct? s.tree ≠ some .otherwise) (index : Nat) (c : Tree) :
    levelsAt g (s.down index c) = levels (g.construct? s.tree) := by
  rw [levelsAt, inTernary_down, raises_down, Site.raisesFrom]
  cases hc : g.construct? s.tree with
  | none => rfl
  | some k =>
    rw [hc] at branch clause
    cases k with
    | branch => exact absurd rfl branch
    | elseIf =>
      cases alternative : s.isAlternative g with
      | true => exact absurd rfl (clause alternative).1
      | false => rfl
    | otherwise =>
      cases alternative : s.isAlternative g with
      | true => exact absurd rfl (clause alternative).2
      | false => rfl
    | _ => rfl

theorem enterGuarded_eq (split : s.tree.children = earlier.reverse ++ c :: later) :
    enterGuarded earlier c = enterNamed
      (if s.tree.indexOf? "condition" != some earlier.length then (1, 1) else (0, 0)) c := by
  rw [enterGuarded, isFirstIn_eq split, bne]
  cases s.tree.indexOf? "condition" == some earlier.length <;> rfl

/-- An alternative of a choice is entered as its construct tells. -/
theorem entryAt?_alternative (index : Nat) (branch : g.construct? s.tree = some .branch)
    (alternative : c.hasField "alternative" = true) (named : c.isNamed = true) :
    entryAt? g (s.down index c) = some (enterAlternative g c) := by
  have isAlternative : (s.down index c).isAlternative g = true := by
    simp [isAlternative_down, alternative, branch]
  have raises : (s.down index c).raises g = !Site.isChoice g c := by
    simp [raises_down, Site.raisesFrom, branch, alternative]
  have chained : (s.down index c).inChainedElse g = false := by simp [inChainedElse_down, branch]
  rw [entryAt?, isEntered, roleOf, isAlternative, chained, tree_down, named,
    levelsAt_of_raises (by simp [inTernary_down, branch]), raises, enterAlternative, Site.isChoice]
  cases hc : g.construct? c with
  | none => simp
  | some k => cases k <;> simp

/-- In a last clause that holds nothing but a choice only the choice is entered. -/
theorem entryAt?_chained {u : Site} (alternative : u.isAlternative g = false)
    (chained : u.inChainedElse g = true) (level : u.raises g = false) :
    entryAt? g u = if u.tree.isPart then some ((0, 0), .chained) else none := by
  have named : (u.tree.isNamed && u.tree.isPart) = u.tree.isPart := by
    rw [Tree.isPart, ← Bool.and_assoc, Bool.and_self]
  simp [entryAt?, isEntered, roleOf, levelsAt, alternative, chained, level, named]

/-- The walk enters a child as the path to it tells. -/
theorem enter?_eq (split : s.tree.children = earlier.reverse ++ c :: later)
    (named : (s.down earlier.length c).isAlternative g = true → c.isNamed = true) :
    enter? g s.tree (roleOf g s) earlier c = entryAt? g (s.down earlier.length c) := by
  by_cases branch : g.construct? s.tree = some .branch
  · rw [enter?_branch branch]
    cases alternative : c.hasField "alternative" with
    | true =>
      rw [entryAt?_alternative _ branch alternative
        (named (by simp [isAlternative_down, alternative, branch]))]
      rfl
    | false =>
      rw [entryAt?_statement (by simp [isAlternative_down, alternative])
          (by simp [inChainedElse_down, branch]),
        levelsAt_of_raises (by simp [inTernary_down, branch]), enterGuarded_eq split]
      simp [raises_down, Site.raisesFrom, branch, alternative]
  · have alternative : (s.down earlier.length c).isAlternative g = false := by
      simp [isAlternative_down, branch]
    by_cases clause : s.isAlternative g = true ∧
        (g.construct? s.tree = some .elseIf ∨ g.construct? s.tree = some .otherwise)
    · obtain ⟨clause, construct | construct⟩ := clause
      · have role : roleOf g s = .clause := by rw [roleOf, if_pos clause, construct]
        rw [entryAt?_statement alternative (by simp [inChainedElse_down, construct]),
          levelsAt_of_raises (by simp [inTernary_down, construct]), role]
        simp [enter?, construct, enterGuarded_eq split, raises_down, Site.raisesFrom, clause]
      · have role : roleOf g s = .clause := by rw [roleOf, if_pos clause, construct]
        rw [role]
        cases goes : goesOn g s.tree with
        | true =>
          rw [entryAt?_chained alternative (by simp [inChainedElse_down, construct, clause, goes])
            (by simp [raises_down, Site.raisesFrom, construct, goes])]
          simp only [enter?, construct, goes, if_true]
          rfl
        | false =>
          rw [entryAt?_statement alternative (by simp [inChainedElse_down, goes]),
            levelsAt_of_raises (by simp [inTernary_down, construct])]
          simp [enter?, construct, goes, raises_down, Site.raisesFrom, clause]
    · have apart : s.isAlternative g = true → g.construct? s.tree ≠ some .elseIf ∧
          g.construct? s.tree ≠ some .otherwise := fun h =>
        not_or.1 fun construct => clause ⟨h, construct⟩
      rw [enter?_plain branch fun role => apart (isAlternative_of_clause role),
        entryAt?_statement alternative, levelsAt_plain branch apart]
      · rfl
      · cases h : s.isAlternative g with
        | true => simp [inChainedElse_down, (apart h).2]
        | false => simp [inChainedElse_down, h]

end Entry

/-! ### The end of a routine -/

section Ends

variable {s : Site} {c : Tree} {earlier later : List Tree}

theorem ends_down (s : Site) (index : Nat) (c : Tree) :
    (s.down index c).ends g routine = if routine.statementsWay? = some s.way then
      s.tree.endsAt index
      else !g.isRoutine s.tree && Site.comesLast g s.tree index && s.ends g routine :=
  rfl

theorem getElem?_of_split {t : Tree} (split : t.children = earlier.reverse ++ c :: later) :
    t.children[earlier.length]? = some c := by
  rw [split, ← List.length_reverse, List.getElem?_append_right (Nat.le_refl _), Nat.sub_self]
  rfl

/-- The way to the statements of a routine goes through its body. -/
theorem statementsWay?_eq_some {way : List Nat} (h : routine.statementsWay? = some way) :
    ∃ index, routine.indexOf? "body" = some index ∧ [index] <:+ way := by
  rw [Tree.statementsWay?] at h
  obtain ⟨index, first, h⟩ := Option.bind_eq_some_iff.1 h
  obtain ⟨body, _, h⟩ := Option.bind_eq_some_iff.1 h
  refine ⟨index, first, ?_⟩
  split at h <;> cases h
  · exact List.suffix_cons _ _
  · exact List.suffix_rfl

theorem not_suffix_of_length {way : List Nat} {index : Nat} : ¬ index :: way <:+ way := fun h => by
  have := h.length_le
  rw [List.length_cons] at this
  omega

theorem flowAt_of_routine (split : routine.children = earlier.reverse ++ c :: later) :
    FlowAt routine (Site.down ⟨routine, [], []⟩ earlier.length c)
      (flowOf g routine .routine earlier c later) := by
  rw [flowOf, isFirstIn_eq split]
  cases first : routine.indexOf? "body" == some earlier.length with
  | true =>
    have way : routine.statementsWay? = if isWrapper c then
        some [c.children.findIdx Tree.isPart, earlier.length] else some [earlier.length] := by
      rw [Tree.statementsWay?, eq_of_beq first]
      show (routine.children[earlier.length]?).bind _ = _
      rw [getElem?_of_split split]
      rfl
    cases wrapper : isWrapper c with
    | true => exact ⟨_, by rw [way, wrapper]; rfl, rfl, wrapper⟩
    | false => exact (by rw [way, wrapper]; rfl : routine.statementsWay? = some [earlier.length])
  | false =>
    intro way h suffix
    obtain ⟨index, here, last⟩ := statementsWay?_eq_some h
    have same : [index] = [earlier.length] :=
      (List.suffix_of_suffix_length_le last suffix (Nat.le_refl 1)).eq_of_length rfl
    rw [here, List.singleton_inj.1 same, beq_self_eq_true] at first
    cases first

theorem flowAt_of_wrapper (split : s.tree.children = earlier.reverse ++ c :: later)
    (flow : FlowAt routine s .wrapper) :
    FlowAt routine (s.down earlier.length c) (flowOf g s.tree .wrapper earlier c later) := by
  obtain ⟨index, statements, first, wrapper⟩ := flow
  cases part : c.isPart with
  | true =>
    obtain ⟨only, one⟩ : ∃ only, s.tree.onlyPart? = some only := by
      rw [isWrapper] at wrapper
      cases one : s.tree.onlyPart? with
      | none => rw [one] at wrapper; cases wrapper
      | some only => exact ⟨only, rfl⟩
    rw [findIdx_isPart split one part] at first
    rw [flowOf, part]
    exact first ▸ statements
  | false =>
    rw [flowOf, part]
    intro way h suffix
    obtain rfl := Option.some.inj (statements.symm.trans h)
    obtain ⟨here, _⟩ := List.cons.inj (suffix.eq_of_length (by simp [Site.down]))
    have there := getElem?_of_split split
    rw [here, ← first, List.getElem?_eq_some_iff] at there
    obtain ⟨lt, rfl⟩ := there
    rw [List.findIdx_getElem (w := lt)] at part
    cases part

theorem flowOf_tail {t : Tree} (split : t.children = earlier.reverse ++ c :: later) :
    flowOf g t .tail earlier c later =
      if Site.comesLast g t earlier.length then .tail else .early := by
  rw [flowOf, Site.comesLast, isFirstIn_eq split, isLastPart_eq split, bne]
  cases g.construct? t with
  | none => rfl
  | some k =>
    cases k with
    | branch | elseIf => cases t.indexOf? "condition" == some earlier.length <;> rfl
    | _ => rfl

/-- Where a node stands to the end of the routine follows from where the node right around it
    does. -/
theorem flowAt_down (split : s.tree.children = earlier.reverse ++ c :: later) {flow : Flow}
    (h : FlowAt routine s flow) :
    FlowAt routine (s.down earlier.length c) (flowOf g s.tree flow earlier c later) := by
  -- what lies below a node off the way to the statements lies off it too
  have below : (∀ way, routine.statementsWay? = some way → ¬ s.way <:+ way) →
      ∀ way, routine.statementsWay? = some way → ¬ (s.down earlier.length c).way <:+ way :=
    fun off way statements suffix => off way statements ((List.suffix_cons _ _).trans suffix)
  cases flow with
  | routine =>
    obtain rfl : s = ⟨routine, [], []⟩ := h
    exact flowAt_of_routine split
  | wrapper => exact flowAt_of_wrapper split h
  | body =>
    have off : ∀ way, routine.statementsWay? = some way →
        ¬ (s.down earlier.length c).way <:+ way := fun way statements => by
      obtain rfl := Option.some.inj (h.symm.trans statements)
      exact not_suffix_of_length
    rw [flowOf]
    split <;> exact off
  | tail =>
    rw [flowOf_tail split]
    split <;> exact below h
  | early => exact below h

/-- Only below the statements of the routine, and where the routine ends after a node, can it end
    after a child. -/
theorem ends_down_eq_false {index : Nat} (statements : routine.statementsWay? ≠ some s.way)
    (ends : s.ends g routine = false) : (s.down index c).ends g routine = false := by
  rw [ends_down, if_neg statements, ends, Bool.and_false]

/-- The walk knows whether the routine ends after a child. -/
theorem ends_down_iff (split : s.tree.children = earlier.reverse ++ c :: later)
    (inner : s.above ≠ [] → g.isRoutine s.tree = false) {flow : Flow} (h : FlowAt routine s flow)
    (ends : s.ends g routine = true ↔ flow = .tail) :
    (s.down earlier.length c).ends g routine = true ↔
      flowOf g s.tree flow earlier c later = .tail := by
  have before : flow ≠ .tail → s.ends g routine = false := fun no =>
    Bool.eq_false_iff.2 fun h => no (ends.1 h)
  cases flow with
  | routine =>
    obtain rfl : s = ⟨routine, [], []⟩ := h
    have no : routine.statementsWay? ≠ some [] := fun h => by
      obtain ⟨_, _, suffix⟩ := statementsWay?_eq_some h
      exact absurd (List.suffix_nil.1 suffix) (List.cons_ne_nil _ _)
    rw [ends_down_eq_false no (before (by decide)), flowOf]
    split
    · split <;> simp
    · simp
  | wrapper =>
    obtain ⟨index, way, _, _⟩ := h
    have no : routine.statementsWay? ≠ some s.way := fun h =>
      List.cons_ne_self index s.way (Option.some.inj (way.symm.trans h))
    rw [ends_down_eq_false no (before (by decide)), flowOf]
    split <;> simp
  | body =>
    have here : routine.statementsWay? = some s.way := h
    rw [ends_down, if_pos here, ← isLastPart_eq split, flowOf]
    cases isLastPart c later <;> simp
  | tail =>
    have off : routine.statementsWay? ≠ some s.way := fun way => h _ way List.suffix_rfl
    have ending : s.ends g routine = true := ends.2 rfl
    have outer : s.above ≠ [] := fun top => by
      rw [Site.ends, top] at ending
      cases ending
    rw [ends_down, if_neg off, ending, inner outer, flowOf_tail split]
    cases Site.comesLast g s.tree earlier.length <;> simp
  | early =>
    have off : routine.statementsWay? ≠ some s.way := fun way => h _ way List.suffix_rfl
    rw [ends_down_eq_false off (before (by decide)), flowOf]
    simp

end Ends

/-! ### The place of every node -/

section Placed

variable {s : Site} {p : Place} {c : Tree} {earlier later : List Tree}

theorem placedAt_start : PlacedAt g routine ⟨routine, [], []⟩ start where
  nesting := rfl
  depth := rfl
  role := by simp [start, roleOf, Site.isAlternative, Site.inChainedElse]
  chained := by simp [start]
  flow := rfl
  ends := by simp [start, Site.ends, Site.endsFrom]
  run := rfl

theorem path_down (s : Site) (index : Nat) (c : Tree) :
    (s.down index c).path = s.down index c :: s.path := rfl

theorem nesting_down (s : Site) (index : Nat) (c : Tree) :
    (s.down index c).nesting g = s.nesting g + (levelsAt g (s.down index c)).1 := by
  rw [Site.nesting, path_down, List.countP_cons, Site.nesting, levelsAt]

theorem depth_down (s : Site) (index : Nat) (c : Tree) :
    (s.down index c).depth g = s.depth g + (levelsAt g (s.down index c)).2 := by
  rw [Site.depth, path_down, List.countP_cons, Site.depth, levelsAt]

theorem branch_of_chained {index : Nat} (mem : c ∈ s.tree.children)
    (entered : isEntered g (s.down index c) = true) (h : roleOf g (s.down index c) = .chained) :
    g.construct? c = some .branch := by
  rw [roleOf] at h
  split at h
  · split at h
    · assumption
    · cases h
    · cases h
    · cases h
  · split at h
    · next chained =>
      rw [isEntered, chained, Bool.not_true, Bool.false_or, Bool.and_eq_true] at entered
      rw [inChainedElse_down, Bool.and_eq_true] at chained
      exact branch_of_goesOn chained.2 mem entered.2
    · cases h

/-- A child gets the place that its path tells, if it is entered. -/
theorem placedAt_down (placed : PlacedAt g routine s p)
    (split : s.tree.children = earlier.reverse ++ c :: later)
    (inner : s.above ≠ [] → g.isRoutine s.tree = false)
    (named : (s.down earlier.length c).isAlternative g = true → c.isNamed = true)
    (entered : isEntered g (s.down earlier.length c) = true) :
    ∃ q, placeOf? g s.tree p earlier c later = some q ∧
      PlacedAt g routine (s.down earlier.length c) q := by
  have mem : c ∈ s.tree.children := List.mem_of_getElem? (getElem?_of_split split)
  refine ⟨_, by rw [placeOf?, placed.role, enter?_eq split named, entryAt?, if_pos entered]; rfl, ?_⟩
  exact {
    nesting := by rw [nesting_down, placed.nesting]
    depth := by rw [depth_down, placed.depth]
    role := rfl
    chained := branch_of_chained mem entered
    flow := flowAt_down split placed.flow
    ends := ends_down_iff split inner placed.flow placed.ends
    run := rfl }

end Placed

end Complexity

end CodeMetrics
