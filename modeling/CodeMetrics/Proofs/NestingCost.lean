import CodeMetrics.Proofs.Tally

/-! Nesting costs cognitive complexity.

    A construct that nests costs one and the levels around it, and the levels are no fewer than the
    depth. So each level of depth that is reached has been paid for on the way: the first by one,
    the second by two and so on. A further clause of a choice costs one only, but it goes as deep as
    the choice before it, which has paid for that already; a choice inside an expression adds a
    level and no depth. What the walk carries down is therefore the depth that is paid for, and in a
    chain that is one more than the depth of the place. -/

namespace CodeMetrics

/-- What nesting to a depth costs at least: one for the first level, two for the second and so
    on. -/
def depthCost : Nat → Nat
  | 0 => 0
  | d + 1 => depthCost d + (d + 1)

theorem depthCost_eq (d : Nat) : depthCost d = d * (d + 1) / 2 := by
  have twice : 2 * depthCost d = d * (d + 1) := by
    induction d with
    | zero => rfl
    | succ d ih => rw [depthCost, Nat.mul_add, ih, ← Nat.add_mul, Nat.mul_comm]
  rw [← twice, Nat.mul_div_cancel_left _ (by decide)]

theorem depthCost_mono {a b : Nat} (h : a ≤ b) : depthCost a ≤ depthCost b := by
  induction h with
  | refl => exact Nat.le_refl _
  | step _ ih => exact Nat.le_trans ih (Nat.le_add_right _ _)

/-- Whether a part in a choice goes on with a chain that is open. -/
def Role.inChain : Role → Bool
  | .chained | .clause => true
  | .statement | .bareElse => false

/-- The depth that is paid for at a place. -/
def Place.paidDepth (p : Place) : Nat := p.depth + if p.role.inChain then 1 else 0

/-- What has been paid on the way to a place covers the depth that is paid for there. -/
structure Place.Paid (p : Place) (paid : Nat) : Prop where
  depth_le : p.depth ≤ p.nesting
  covers : depthCost p.paidDepth ≤ paid

/-- What has been paid before a stretch and what it adds cover the depth that it reaches. -/
def Tally.CoveredFrom (paid : Nat) (a : Tally) : Prop := depthCost a.reach ≤ paid + a.cognitive

namespace Tally.CoveredFrom

variable {paid : Nat} {a b : Tally}

theorem zero (paid : Nat) : CoveredFrom paid 0 := Nat.zero_le _

theorem mono {paid' : Nat} (le : paid ≤ paid') (h : CoveredFrom paid a) : CoveredFrom paid' a :=
  Nat.le_trans h (Nat.add_le_add_right le _)

/-- A stretch after another may use what that has paid. -/
theorem add (first : CoveredFrom paid a) (second : CoveredFrom (paid + a.cognitive) b) :
    CoveredFrom paid (a + b) := by
  have cognitive : (a + b).cognitive = a.cognitive + b.cognitive := rfl
  have reach : (a + b).reach = max a.reach b.reach := rfl
  rw [CoveredFrom] at first second ⊢
  rw [cognitive, reach]
  rcases Nat.le_total a.reach b.reach with le | le
  · rw [Nat.max_eq_right le]
    omega
  · rw [Nat.max_eq_left le]
    omega

end Tally.CoveredFrom

namespace Complexity

variable {g : Grammar} {t : Tree} {p : Place} {paid : Nat}

/-- Whether a node raises the depth of what it holds, by its construct. -/
def nests (g : Grammar) (t : Tree) : Bool :=
  match g.construct? t with
  | some .branch | some .loop | some .handler | some .switch => true
  | _ => false

/-! ### One visit -/

theorem statementScore_of_nests (h : nests g t = true) (p : Place) :
    (statementScore g t p).cognitive = 1 + p.nesting ∧
      (statementScore g t p).reach = p.depth + 1 := by
  rw [nests] at h
  rw [statementScore]
  split at h
  · next construct => rw [construct]; exact ⟨rfl, rfl⟩
  · next construct => rw [construct]; exact ⟨rfl, rfl⟩
  · next construct => rw [construct]; exact ⟨rfl, rfl⟩
  · next construct => rw [construct]; exact ⟨rfl, rfl⟩
  · cases h

theorem reach_of_not_nests (h : nests g t = false) (p : Place) :
    (statementScore g t p).reach = 0 := by
  rw [nests] at h
  rw [statementScore]
  cases construct : g.construct? t with
  | none => rfl
  | some k =>
    rw [construct] at h
    cases k with
    | branch | loop | handler | switch => cases h
    | _ => rfl

/-- A node that stands for itself pays for the depth that it reaches. -/
theorem covered_statement (h : p.Paid paid) (t : Tree) :
    depthCost (statementScore g t p).reach ≤ paid + (statementScore g t p).cognitive := by
  cases nesting : nests g t with
  | true =>
    obtain ⟨cognitive, reach⟩ := statementScore_of_nests nesting p
    have deep : depthCost p.depth ≤ paid :=
      Nat.le_trans (depthCost_mono (Nat.le_add_right _ _)) h.covers
    have le := h.depth_le
    rw [cognitive, reach, depthCost]
    omega
  | false =>
    rw [reach_of_not_nests nesting]
    exact Nat.zero_le _

/-- What has been paid and what a visit adds cover the depth that the visit reaches. -/
theorem covered_visit (h : p.Paid paid) (t : Tree) : (visitTally g ⟨t, p⟩).CoveredFrom paid := by
  have itself := covered_statement (g := g) h t
  show depthCost (score g ⟨t, p⟩).reach ≤ paid + (score g ⟨t, p⟩).cognitive
  rw [score]
  cases role : p.role with
  | statement =>
    cases g.isRoutine t with
    | true => exact Nat.zero_le _
    | false => exact itself
  | chained =>
    -- the choice that the chain began with has paid for the level
    have covers := h.covers
    rw [Place.paidDepth, role] at covers
    exact Nat.le_trans covers (Nat.le_add_right _ _)
  | clause =>
    cases g.construct? t with
    | none => exact Nat.zero_le _
    | some k => cases k <;> exact Nat.zero_le _
  | bareElse =>
    cases g.isRoutine t with
    | true => exact Nat.zero_le _
    | false => exact Nat.le_trans itself (Nat.add_le_add_left (Nat.le_add_left _ _) _)

/-- After a visit to a construct that nests, or to a part of a chain, one more level is paid for. -/
theorem depthCost_succ_le (h : p.Paid paid) (inner : g.isRoutine t = false)
    (opened : nests g t = true ∨ p.role.inChain = true) :
    depthCost (p.depth + 1) ≤ paid + (visitTally g ⟨t, p⟩).cognitive := by
  cases chain : p.role.inChain with
  | true =>
    have covers := h.covers
    rw [Place.paidDepth, chain] at covers
    exact Nat.le_trans covers (Nat.le_add_right _ _)
  | false =>
    have nesting : nests g t = true := opened.resolve_right (by simp [chain])
    have own := (statementScore_of_nests nesting p).2
    have reach : (visitTally g ⟨t, p⟩).reach = p.depth + 1 := by
      show (score g ⟨t, p⟩).reach = _
      rw [score]
      cases role : p.role with
      | statement | bareElse => simp [inner, own]
      | chained | clause => exact absurd chain (by rw [role]; decide)
    rw [← reach]
    exact covered_visit h t

/-! ### One child -/

/-- A child is entered as deep as its parent and outside of a chain, or the parent nests or is part
    of a chain and the child uses the one level that is paid for there. -/
theorem enter?_depth {role : Role} {earlier : List Tree} {c : Tree} {e : Entry}
    (h : enter? g t role earlier c = some e) : e.1.2 ≤ e.1.1 ∧
      ((e.1.2 = 0 ∧ e.2.inChain = false) ∨ ((nests g t = true ∨ role.inChain = true) ∧
        e.1.2 + (if e.2.inChain then 1 else 0) ≤ 1)) := by
  have guarded : ∀ {Opened : Prop}, Opened → enterGuarded earlier c = some e →
      e.1.2 ≤ e.1.1 ∧ ((e.1.2 = 0 ∧ e.2.inChain = false) ∨
        (Opened ∧ e.1.2 + (if e.2.inChain then 1 else 0) ≤ 1)) := by
    intro Opened opened h
    rw [enterNamed_eq h]
    split
    · exact ⟨Nat.le_refl _, Or.inl ⟨rfl, rfl⟩⟩
    · exact ⟨Nat.le_refl _, Or.inr ⟨opened, Nat.le_refl _⟩⟩
  unfold enter? at h
  split at h
  · exact guarded (Or.inr rfl) h
  · split at h
    · split at h <;> cases h
      exact ⟨Nat.le_refl _, Or.inr ⟨Or.inr rfl, Nat.le_refl _⟩⟩
    · rw [enterNamed_eq h]
      exact ⟨Nat.le_refl _, Or.inr ⟨Or.inr rfl, Nat.le_refl _⟩⟩
  · next construct =>
    have nesting : nests g t = true := by rw [nests, construct]
    split at h
    · cases h
      rw [enterAlternative]
      split <;> exact ⟨Nat.le_refl _, Or.inr ⟨Or.inl nesting, Nat.le_refl _⟩⟩
    · exact guarded (Or.inl nesting) h
  · rw [enterNamed_eq h, nests]
    cases g.construct? t with
    | none => exact ⟨Nat.le_refl _, Or.inl ⟨rfl, rfl⟩⟩
    | some k =>
      cases k with
      | loop | handler | switch => exact ⟨Nat.le_refl _, Or.inr ⟨Or.inl rfl, Nat.le_refl _⟩⟩
      | _ => exact ⟨Nat.zero_le _, Or.inl ⟨rfl, rfl⟩⟩

/-- What has been paid and what a visit adds cover the depth that is paid for at a child. -/
theorem paid_child (h : p.Paid paid) (inner : g.isRoutine t = false) {earlier later : List Tree}
    {c : Tree} {q : Place} (entered : placeOf? g t p earlier c later = some q) :
    q.Paid (paid + (visitTally g ⟨t, p⟩).cognitive) := by
  obtain ⟨e, entry, rfl⟩ := Option.map_eq_some_iff.1 entered
  obtain ⟨levels, depth⟩ := enter?_depth entry
  refine ⟨Nat.add_le_add h.depth_le levels, ?_⟩
  rcases depth with ⟨same, chain⟩ | ⟨opened, one⟩
  · -- the child is as deep as its parent
    have shallow : p.depth ≤ p.paidDepth := Nat.le_add_right _ _
    have covers := Nat.le_trans (depthCost_mono shallow) h.covers
    simp only [Place.paidDepth, same, chain]
    exact Nat.le_trans covers (Nat.le_add_right _ _)
  · refine Nat.le_trans (depthCost_mono ?_) (depthCost_succ_le h inner opened)
    simp only [Place.paidDepth]
    omega

/-! ### The whole walk -/

/-- What has been paid and what the children of a node add cover the depth that they reach, if that
    is so for the code at and below each of them. -/
theorem covered_among {children : List Tree}
    (ih : ∀ c ∈ children, ∀ q : Place, ∀ paid, q.Paid paid → (tallyFrom g q c).CoveredFrom paid)
    (places : ∀ earlier c later q, placeOf? g t p earlier c later = some q → q.Paid paid) :
    ∀ cs earlier : List Tree, (∀ c ∈ cs, c ∈ children) →
      (tallyAmong g t p earlier cs).CoveredFrom paid
  | [], earlier, _ => by rw [tallyAmong_nil]; exact .zero _
  | c :: later, earlier, sub => by
    have rest := covered_among ih places later (c :: earlier)
      fun d hd => sub d (List.mem_cons_of_mem _ hd)
    rw [tallyAmong_cons]
    refine .add ?_ (rest.mono (Nat.le_add_right _ _))
    cases entered : placeOf? g t p earlier c later with
    | none => exact .zero _
    | some q => exact ih c (sub c List.mem_cons_self) q _ (places _ _ _ _ entered)

/-- What has been paid and what the code at and below a node adds cover the depth that the code
    reaches. -/
theorem covered_from (t : Tree) : ∀ (p : Place) (paid : Nat), p.Paid paid →
    (tallyFrom g p t).CoveredFrom paid := by
  induction t using Tree.induct with
  | node label children ih =>
    intro p paid h
    rw [tallyFrom_eq]
    refine .add (covered_visit h _) ?_
    cases inner : g.isRoutine (.node label children) with
    | true => exact .zero _
    | false =>
      exact covered_among ih (fun _ _ _ _ entered => paid_child h inner entered) children []
        fun _ h => h

end Complexity

/-- Nesting to a depth costs a cognitive complexity of at least one for the first level, two for the
    second and so on. -/
theorem depthCost_le_cognitive (l : Language) (routine : Tree)
    (unit : l.grammar.isRoutine routine = true) :
    (Complexity.of l.grammar routine).nestingDepth
        * ((Complexity.of l.grammar routine).nestingDepth + 1) / 2
      ≤ (Complexity.of l.grammar routine).cognitive := by
  have outer := (l.apart.routine routine unit).1
  have covered : (Complexity.tallyAmong l.grammar routine Complexity.start []
      routine.children).CoveredFrom 0 := by
    refine Complexity.covered_among (fun c _ => Complexity.covered_from c) ?_ _ _ fun _ h => h
    intro earlier c later q entered
    obtain ⟨e, entry, rfl⟩ := Option.map_eq_some_iff.1 entered
    rw [Complexity.enter?_plain (by simp [outer]) (by simp [outer]), outer] at entry
    rw [Complexity.enterNamed_eq entry]
    exact ⟨Nat.le_refl _, Nat.le_refl _⟩
  rw [Tally.CoveredFrom, Nat.zero_add] at covered
  rw [← depthCost_eq, Complexity.of_eq]
  exact covered

open CodeMetrics.Tree in
/-- A loop around a choice that goes on with another choice, and a loop in that. -/
def loopInChain : Tree :=
  let condition := part "identifier" (some "condition") []
  let inner := part "for_statement" none [word "for", part "block" (some "body") []]
  let chain := part "if_statement" none
    [word "if", condition, part "block" (some "consequence") [], word "else",
     part "if_statement" (some "alternative")
       [word "if", condition, part "block" (some "consequence") [inner]]]
  part "function_declaration" none
    [word "func", part "identifier" (some "name") [], part "block" (some "body")
      [part "for_statement" none [word "for", part "block" (some "body") [chain]]]]

theorem depthCost_le_cognitive_loopInChain :
    Grammar.go.isRoutine loopInChain = true ∧ (Complexity.of .go loopInChain).nestingDepth = 3 ∧
      6 ≤ (Complexity.of .go loopInChain).cognitive := by
  have routine : Grammar.go.isRoutine loopInChain = true := by decide +kernel
  have depth : (Complexity.of .go loopInChain).nestingDepth = 3 := by decide +kernel
  have cost := depthCost_le_cognitive .go loopInChain routine
  refine ⟨routine, depth, ?_⟩
  show 3 * (3 + 1) / 2 ≤ _
  rw [← depth]
  exact cost

end CodeMetrics
