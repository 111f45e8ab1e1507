import CodeMetrics.Proofs.Tally

/-! What a construct adds, from its parts. Most nodes give all their parts the same levels; a choice
    tells its condition, what it guards and its alternatives apart. -/

namespace CodeMetrics

/-- How a statement stands to the end of the routine, by whether the routine ends after it. -/
def Flow.ofLast (last : Bool) : Flow := if last then .tail else .early

/-- A place among statements. -/
def Place.among (nesting depth : Nat) (role : Role) (last : Bool) : Place :=
  ⟨nesting, depth, role, .ofLast last, none⟩

namespace Complexity

variable {g : Grammar}

/-- What statements add one after the other, the last of them ending the routine or not. -/
def inTurn (g : Grammar) (nesting depth : Nat) (last : Bool) : List Tree → Tally
  | [] => 0
  | c :: rest =>
    tallyFrom g (.among nesting depth .statement (last && rest.isEmpty)) c
      + inTurn g nesting depth last rest

theorem inTurn_singleton (n d : Nat) (last : Bool) (c : Tree) :
    inTurn g n d last [c] = tallyFrom g (.among n d .statement last) c := by
  rw [inTurn, inTurn, add_zero, List.isEmpty_nil, Bool.and_true]

theorem inTurn_append (n d : Nat) (xs ys : List Tree) :
    inTurn g n d false (xs ++ ys) = inTurn g n d false xs + inTurn g n d false ys := by
  induction xs with
  | nil => rw [List.nil_append, inTurn, zero_add]
  | cons c rest ih =>
    rw [List.cons_append, inTurn, inTurn, ih, Bool.false_and, Bool.false_and, add_assoc]

/-! ### Flow -/

theorem isLastPart_of_parts {c : Tree} {later : List Tree} (part : c.isPart = true)
    (parts : ∀ d ∈ later, d.isPart = true) : isLastPart c later = later.isEmpty := by
  rw [isLastPart, part, Bool.true_and]
  cases later with
  | nil => rfl
  | cons d rest => simp [parts d List.mem_cons_self]

/-- The last part of a node goes on to the end, if the node is no construct of its own. -/
theorem flowOf_through {t : Tree}
    (construct : g.construct? t = none ∨ g.construct? t = some .otherwise) (last : Bool)
    (earlier : List Tree) (c : Tree) (later : List Tree) :
    flowOf g t (.ofLast last) earlier c later = .ofLast (last && isLastPart c later) := by
  cases last with
  | false => rfl
  | true => rcases construct with h | h <;> simp [flowOf, Flow.ofLast, h]

/-- All but the condition of a choice goes on to the end. -/
theorem flowOf_guarded {t : Tree}
    (construct : g.construct? t = some .branch ∨ g.construct? t = some .elseIf) (last : Bool)
    (earlier : List Tree) (c : Tree) (later : List Tree) :
    flowOf g t (.ofLast last) earlier c later
      = .ofLast (last && !isFirstIn "condition" earlier c) := by
  cases last with
  | false => rfl
  | true =>
    rcases construct with h | h <;> cases hf : isFirstIn "condition" earlier c <;>
      simp [flowOf, Flow.ofLast, h, hf]

/-- What another construct holds is early. -/
theorem flowOf_inside {t : Tree} {k : Construct} (construct : g.construct? t = some k)
    (branch : k ≠ .branch) (elseIf : k ≠ .elseIf) (otherwise : k ≠ .otherwise) (last : Bool)
    (earlier : List Tree) (c : Tree) (later : List Tree) :
    flowOf g t (.ofLast last) earlier c later = .early := by
  cases last with
  | false => rfl
  | true =>
    simp only [flowOf, Flow.ofLast, construct]
    cases k with
    | branch => exact absurd rfl branch
    | elseIf => exact absurd rfl elseIf
    | otherwise => exact absurd rfl otherwise
    | _ => rfl

/-! ### Nodes with parts of one sort -/

theorem placeOf?_of_plain {t : Tree} (branch : g.construct? t ≠ some .branch)
    (elseIf : g.construct? t ≠ some .elseIf) (otherwise : g.construct? t ≠ some .otherwise)
    (logical : g.logicalOperator? t = none) (p : Place) (earlier later : List Tree) {c : Tree}
    (part : c.isPart = true) : placeOf? g t p earlier c later
      = some ⟨p.nesting + (levels (g.construct? t)).1, p.depth + (levels (g.construct? t)).2,
          .statement, flowOf g t p.flow earlier c later, none⟩ := by
  have named : c.isNamed = true := (Bool.and_eq_true _ _ ▸ part).1
  rw [placeOf?, enter?_plain branch fun _ => ⟨elseIf, otherwise⟩, enterNamed, named, logical]
  rfl

theorem tallyAmong_inTurn {t : Tree} {p : Place} {n d : Nat} {last : Bool}
    (places : ∀ earlier c later, c.isPart = true → placeOf? g t p earlier c later
      = some (.among n d .statement (last && isLastPart c later))) :
    ∀ cs earlier : List Tree, (∀ c ∈ cs, c.isPart = true) →
      tallyAmong g t p earlier cs = inTurn g n d last cs
  | [], earlier, _ => tallyAmong_nil t p earlier
  | c :: later, earlier, parts => by
    have part := parts c List.mem_cons_self
    have parts' : ∀ d ∈ later, d.isPart = true := fun d hd => parts d (List.mem_cons_of_mem _ hd)
    rw [tallyAmong_cons, places earlier c later part, isLastPart_of_parts part parts',
      tallyAmong_inTurn places later (c :: earlier) parts', inTurn]
    rfl

theorem isPart_of_mem_parts {t c : Tree} (h : c ∈ t.parts) : c.isPart = true :=
  (List.mem_filter.1 h).2

/-- A node that stands for nothing by itself. -/
structure Neutral (g : Grammar) (t : Tree) : Prop where
  isNeutral : g.isNeutral t = true
  not_isRoutine : g.isRoutine t = false
  isTidy : g.isTidy t = true

instance (t : Tree) : Decidable (Neutral g t) :=
  decidable_of_iff (g.isNeutral t = true ∧ g.isRoutine t = false ∧ g.isTidy t = true)
    ⟨fun ⟨h₁, h₂, h₃⟩ => ⟨h₁, h₂, h₃⟩, fun ⟨h₁, h₂, h₃⟩ => ⟨h₁, h₂, h₃⟩⟩

/-- What a neutral node holds stands in its place. -/
theorem tallyAmong_neutral {t : Tree} (neutral : Neutral g t) {p : Place} {last : Bool}
    (flow : p.flow = .ofLast last ∨ p.flow = .body ∧ last = true) :
    tallyAmong g t p [] t.parts = inTurn g p.nesting p.depth last t.parts := by
  obtain ⟨construct, logical, _⟩ := Grammar.isNeutral_iff.1 neutral.isNeutral
  refine tallyAmong_inTurn (fun earlier c later part => ?_) t.parts [] fun _ => isPart_of_mem_parts
  have flows : flowOf g t p.flow earlier c later = .ofLast (last && isLastPart c later) := by
    rcases flow with h | ⟨h, rfl⟩
    · rw [h, flowOf_through (Or.inl construct)]
    · rw [h, Bool.true_and]
      rfl
  rw [placeOf?_of_plain (by simp [construct]) (by simp [construct]) (by simp [construct]) logical p
    earlier later part, flows, construct]
  rfl

theorem Neutral.tallyFrom {t : Tree} (neutral : Neutral g t) {p : Place}
    (role : p.role = .statement) : tallyFrom g p t = tallyAmong g t p [] t.parts := by
  rw [tallyFrom_parts neutral.not_isRoutine neutral.isTidy,
    visitTally_neutral neutral.isNeutral role, zero_add]

theorem tallyFrom_neutral {t : Tree} (neutral : Neutral g t) (n d : Nat) (last : Bool) :
    tallyFrom g (.among n d .statement last) t = inTurn g n d last t.parts := by
  rw [neutral.tallyFrom rfl, tallyAmong_neutral neutral (Or.inl rfl)]
  rfl

/-- A node of a construct, with nothing but filler besides its parts. -/
structure Shaped (g : Grammar) (k : Construct) (t : Tree) : Prop where
  construct : g.construct? t = some k
  isTidy : g.isTidy t = true

instance (k : Construct) (t : Tree) : Decidable (Shaped g k t) :=
  decidable_of_iff (g.construct? t = some k ∧ g.isTidy t = true)
    ⟨fun ⟨h₁, h₂⟩ => ⟨h₁, h₂⟩, fun ⟨h₁, h₂⟩ => ⟨h₁, h₂⟩⟩

/-- What a construct adds itself where it stands for itself, labels of a jump aside. -/
def standing (n d : Nat) (last : Bool) : Construct → Tally
  | .branch | .loop | .handler => { cyclomatic := 1, cognitive := 1 + n, reach := d + 1 }
  | .switch => { cognitive := 1 + n, reach := d + 1 }
  | .ternary => { cyclomatic := 1, cognitive := 1 + n }
  | .case => { cyclomatic := 1 }
  | .guard => { cyclomatic := 1, cognitive := 1 }
  | .tryOperator => { cyclomatic := 1, exits := 1 }
  | .exit => { cognitive := if last then 0 else 1, exits := 1, early := [!last] }
  | .jump | .elseIf | .otherwise => 0

variable (apart : g.Apart)

include apart

theorem not_isRoutine_of_construct {t : Tree} {k : Construct} (h : g.construct? t = some k) :
    g.isRoutine t = false := by
  rw [← Bool.not_eq_true]
  intro routine
  rw [(apart.routine t routine).1] at h
  cases h

theorem visitTally_standing {t : Tree} {k : Construct} (construct : g.construct? t = some k)
    (jump : k ≠ .jump) (n d : Nat) (last : Bool) :
    visitTally g ⟨t, .among n d .statement last⟩ = standing n d last k := by
  obtain ⟨logical, guarded⟩ := apart.construct t k construct
  have itself : score g ⟨t, .among n d .statement last⟩
      = statementScore g t (.among n d .statement last) := by
    simp [score, Place.among, not_isRoutine_of_construct apart construct]
  simp only [visitTally, itself, statementScore, early?, construct, plainScore, logical, guarded]
  cases k with
  | jump => exact absurd rfl jump
  | exit => cases last <;> rfl
  | _ => rfl

/-- What a construct adds that gives all its parts the same levels. -/
theorem tallyFrom_construct {t : Tree} {k : Construct} (shaped : Shaped g k t)
    (branch : k ≠ .branch) (elseIf : k ≠ .elseIf) (otherwise : k ≠ .otherwise) (jump : k ≠ .jump)
    (n d : Nat) (last : Bool) : tallyFrom g (.among n d .statement last) t
      = standing n d last k
        + inTurn g (n + (levels (some k)).1) (d + (levels (some k)).2) false t.parts := by
  have construct := shaped.construct
  rw [tallyFrom_parts (not_isRoutine_of_construct apart construct) shaped.isTidy,
    visitTally_standing apart construct jump]
  congr 1
  refine tallyAmong_inTurn (fun earlier c later part => ?_) t.parts [] fun _ => isPart_of_mem_parts
  rw [placeOf?_of_plain (by simp [construct, branch]) (by simp [construct, elseIf])
    (by simp [construct, otherwise]) (apart.construct t k construct).1 _ earlier later part,
    construct]
  congr 2
  exact flowOf_inside construct branch elseIf otherwise last earlier c later

end Complexity

/-! ### Choices -/

/-- A condition and what it guards. -/
structure Guards (condition guarded : Tree) : Prop where
  is_condition : condition.hasField "condition" = true
  not_condition : guarded.hasField "condition" = false
  not_alternative : guarded.hasField "alternative" = false

instance (c t : Tree) : Decidable (Guards c t) :=
  decidable_of_iff (c.hasField "condition" = true ∧ t.hasField "condition" = false ∧
      t.hasField "alternative" = false)
    ⟨fun ⟨h₁, h₂, h₃⟩ => ⟨h₁, h₂, h₃⟩, fun ⟨h₁, h₂, h₃⟩ => ⟨h₁, h₂, h₃⟩⟩

namespace Complexity

variable {g : Grammar}

/-- A choice with its alternatives. -/
structure Branches (g : Grammar) (t condition guarded : Tree) (alternatives : List Tree) :
    Prop extends Shaped g .branch t, Guards condition guarded where
  parts : t.parts = condition :: guarded :: alternatives
  fields : ∀ a ∈ alternatives, a.hasField "alternative" = true

/-- A further condition of a choice, as a clause of it. -/
structure Continues (g : Grammar) (t condition guarded : Tree) : Prop
    extends Shaped g .elseIf t, Guards condition guarded where
  parts : t.parts = [condition, guarded]

/-- What happens otherwise, as a clause of a choice. -/
structure Concludes (g : Grammar) (t held : Tree) : Prop extends Shaped g .otherwise t where
  parts : t.parts = [held]

/-- What the alternatives of a choice add. -/
def ofAlternatives (g : Grammar) (n d : Nat) (last : Bool) : List Tree → Tally
  | [] => 0
  | t :: rest =>
    tallyFrom g (.among (n + (enterAlternative g t).1.1) (d + (enterAlternative g t).1.2)
      (enterAlternative g t).2 last) t + ofAlternatives g n d last rest

theorem ofAlternatives_cons {t : Tree} {a b : Nat} {role : Role}
    (enters : enterAlternative g t = ((a, b), role)) (n d : Nat) (last : Bool) (rest : List Tree) :
    ofAlternatives g n d last (t :: rest)
      = tallyFrom g (.among (n + a) (d + b) role last) t + ofAlternatives g n d last rest := by
  rw [ofAlternatives, enters]

theorem hasField_of_ne {t : Tree} {field other : String} (h : t.hasField field = true)
    (ne : field ≠ other) : t.hasField other = false := by
  rw [Tree.hasField, beq_iff_eq] at h
  simp [Tree.hasField, h, ne]

theorem enter?_branch {t : Tree} (construct : g.construct? t = some .branch) (role : Role)
    (earlier : List Tree) (c : Tree) : enter? g t role earlier c
      = if c.hasField "alternative" then some (enterAlternative g c)
        else enterGuarded earlier c := by
  unfold enter?
  rw [construct]
  cases role <;> rfl

theorem placeOf?_guarded {t : Tree} (apart : g.Apart)
    (construct : g.construct? t = some .branch ∨ g.construct? t = some .elseIf) {role : Role}
    {earlier : List Tree} {c : Tree} (enters : enter? g t role earlier c = enterGuarded earlier c)
    (part : c.isPart = true) (n d : Nat) (last : Bool) (later : List Tree) :
    placeOf? g t (.among n d role last) earlier c later
      = some (if isFirstIn "condition" earlier c then .among n d .statement false
          else .among (n + 1) (d + 1) .statement last) := by
  have named : c.isNamed = true := (Bool.and_eq_true _ _ ▸ part).1
  have logical : g.logicalOperator? t = none := by
    rcases construct with h | h <;> exact (apart.construct t _ h).1
  have flows := flowOf_guarded construct last earlier c later
  rw [placeOf?, Place.among, enters, enterGuarded, enterNamed, named, flows, logical]
  cases isFirstIn "condition" earlier c <;> cases last <;> rfl

/-- A condition stands on the level of its choice and is early; what it guards stands one level
    deeper and goes on to the end. -/
theorem tallyAmong_guards {t condition guarded : Tree} (apart : g.Apart)
    (construct : g.construct? t = some .branch ∨ g.construct? t = some .elseIf) {role : Role}
    (enters : ∀ earlier c, c.hasField "alternative" = false →
      enter? g t role earlier c = enterGuarded earlier c)
    (guards : Guards condition guarded) {rest : List Tree}
    (parts : t.parts = condition :: guarded :: rest) (n d : Nat) (last : Bool) :
    tallyAmong g t (.among n d role last) [] (condition :: guarded :: rest)
      = tallyFrom g (.among n d .statement false) condition
        + (tallyFrom g (.among (n + 1) (d + 1) .statement last) guarded
          + tallyAmong g t (.among n d role last) [guarded, condition] rest) := by
  have part : condition.isPart = true := isPart_of_mem_parts (by rw [parts]; simp)
  have part' : guarded.isPart = true := isPart_of_mem_parts (by rw [parts]; simp)
  have first : isFirstIn "condition" [] condition = true := by simp [isFirstIn, guards.is_condition]
  have other : isFirstIn "condition" [condition] guarded = false := by
    simp [isFirstIn, guards.not_condition]
  have apartField : condition.hasField "alternative" = false :=
    hasField_of_ne guards.is_condition (by decide)
  rw [tallyAmong_cons, placeOf?_guarded apart construct (enters _ _ apartField) part, first,
    tallyAmong_cons, placeOf?_guarded apart construct (enters _ _ guards.not_alternative) part',
    other]
  rfl

theorem tallyAmong_alternatives {t : Tree} (apart : g.Apart)
    (construct : g.construct? t = some .branch) (n d : Nat) (role : Role) (last : Bool) :
    ∀ (alternatives earlier : List Tree), (∀ a ∈ alternatives, a.hasField "alternative" = true) →
      tallyAmong g t (.among n d role last) earlier alternatives
        = ofAlternatives g n d last alternatives
  | [], earlier, _ => tallyAmong_nil _ _ _
  | a :: rest, earlier, fields => by
    have field := fields a List.mem_cons_self
    have other : isFirstIn "condition" earlier a = false := by
      simp [isFirstIn, hasField_of_ne field (show "alternative" ≠ "condition" by decide)]
    have flows := flowOf_guarded (Or.inl construct) last earlier a rest
    have place : placeOf? g t (.among n d role last) earlier a rest
        = some (.among (n + (enterAlternative g a).1.1) (d + (enterAlternative g a).1.2)
            (enterAlternative g a).2 last) := by
      rw [placeOf?, Place.among, enter?_branch construct, field, flows, other,
        (apart.construct t _ construct).1, Bool.not_false, Bool.and_true]
      rfl
    rw [tallyAmong_cons, place, tallyAmong_alternatives apart construct n d role last rest
      (a :: earlier) fun b hb => fields b (List.mem_cons_of_mem _ hb), ofAlternatives]
    rfl

/-- What a choice adds. -/
theorem tallyFrom_branches {t condition guarded : Tree} {alternatives : List Tree} (apart : g.Apart)
    (branches : Branches g t condition guarded alternatives) (n d : Nat) (role : Role)
    (last : Bool) : tallyFrom g (.among n d role last) t
      = visitTally g ⟨t, .among n d role last⟩
        + (tallyFrom g (.among n d .statement false) condition
          + (tallyFrom g (.among (n + 1) (d + 1) .statement last) guarded
            + ofAlternatives g n d last alternatives)) := by
  have construct := branches.construct
  have enters : ∀ earlier c, c.hasField "alternative" = false →
      enter? g t role earlier c = enterGuarded earlier c := fun earlier c h => by
    rw [enter?_branch construct, h]
    rfl
  rw [tallyFrom_parts (not_isRoutine_of_construct apart construct) branches.isTidy, branches.parts,
    tallyAmong_guards apart (Or.inl construct) enters branches.toGuards branches.parts,
    tallyAmong_alternatives apart construct n d role last alternatives _ branches.fields]

/-- What a further condition adds, as a clause. -/
theorem tallyFrom_continues {t condition guarded : Tree} (apart : g.Apart)
    (continues : Continues g t condition guarded) (n d : Nat) (last : Bool) :
    tallyFrom g (.among n d .clause last) t
      = { cyclomatic := 1, cognitive := 1 }
        + (tallyFrom g (.among n d .statement false) condition
          + tallyFrom g (.among (n + 1) (d + 1) .statement last) guarded) := by
  have construct := continues.construct
  have enters : ∀ earlier c, c.hasField "alternative" = false →
      enter? g t .clause earlier c = enterGuarded earlier c := fun earlier c _ => by
    unfold enter?
    rw [construct]
  have itself : visitTally g ⟨t, .among n d .clause last⟩
      = { cyclomatic := 1, cognitive := 1 } := by
    simp [visitTally, score, Place.among, construct, early?]
  rw [tallyFrom_parts (not_isRoutine_of_construct apart construct) continues.isTidy,
    continues.parts, tallyAmong_guards apart (Or.inr construct) enters continues.toGuards
      continues.parts, tallyAmong_nil, add_zero, itself]

/-- What happens otherwise adds what the clause holds: on its level where that goes on with the
    choice, else one level deeper. -/
theorem tallyFrom_concludes {t held : Tree} (apart : g.Apart) (concludes : Concludes g t held)
    (n d : Nat) (last : Bool) : tallyFrom g (.among n d .clause last) t
      = if g.construct? held = some .branch then tallyFrom g (.among n d .chained last) held
        else { cognitive := 1 } + tallyFrom g (.among (n + 1) (d + 1) .statement last) held := by
  have construct := concludes.construct
  have part : held.isPart = true := isPart_of_mem_parts (by rw [concludes.parts]; simp)
  have named : held.isNamed = true := (Bool.and_eq_true _ _ ▸ part).1
  have goes : goesOn g t = decide (g.construct? held = some .branch) := by
    rw [goesOn, Tree.onlyPart?, concludes.parts]
    exact beq_eq_decide _ _
  have flows : flowOf g t (.ofLast last) [] held [] = .ofLast last := by
    simp [flowOf_through (Or.inr construct), isLastPart, part]
  have enters : enter? g t .clause [] held
      = if g.construct? held = some .branch then some ((0, 0), .chained)
        else some ((1, 1), .statement) := by
    unfold enter?
    rw [construct, goes, part, enterNamed, named]
    simp
  have itself : visitTally g ⟨t, .among n d .clause last⟩
      = { cognitive := if g.construct? held = some .branch then 0 else 1 } := by
    simp [visitTally, score, Place.among, construct, early?, goes]
  rw [tallyFrom_parts (not_isRoutine_of_construct apart construct) concludes.isTidy,
    concludes.parts, tallyAmong_cons, tallyAmong_nil, add_zero, placeOf?, Place.among, enters,
    flows, (apart.construct t _ construct).1]
  rw [Place.among] at itself
  rw [itself]
  split
  · exact zero_add _
  · rfl

/-- What happens otherwise, without a clause around it. -/
theorem tallyFrom_bareElse {t : Tree} (neutral : Neutral g t) (n d : Nat) (last : Bool) :
    tallyFrom g (.among n d .bareElse last) t = { cognitive := 1 } + inTurn g n d last t.parts := by
  obtain ⟨construct, logical, guarded⟩ := Grammar.isNeutral_iff.1 neutral.isNeutral
  have itself : visitTally g ⟨t, .among n d .bareElse last⟩ = { cognitive := 1 } := by
    simp [visitTally, score, Place.among, neutral.not_isRoutine, statementScore, construct,
      plainScore, logical, guarded, early?]
  rw [tallyFrom_parts neutral.not_isRoutine neutral.isTidy, itself,
    tallyAmong_neutral neutral (Or.inl rfl)]
  rfl

end Complexity

end CodeMetrics
