import CodeMetrics.Proofs.Constructs

/-! Chains of choices score alike however a grammar writes them.

    A program is given by what the measures tell apart: plain statements, exits, loops, switches and
    chains of choices. Grammars write the chains in three styles. A program has a tally of its own,
    and every tree that shows the program in one of the styles adds that tally. So the trees of a
    program have the same measures, and the same exits are early in them. -/

namespace CodeMetrics

/-! ### Programs -/

/-- What expressions add, by the levels around them. -/
abbrev Weight := Nat → Nat → Tally

mutual

/-- A statement. -/
inductive Statement where
  /-- Whatever adds the same everywhere, by the levels around it and whether the routine ends after
      it. -/
  | plain (adds : Nat → Nat → Bool → Tally)
  | exit (value : Weight)
  | loop (head : Weight) (body : Block)
  | switch (head : Weight) (cases : Cases)
  | choice (condition : Weight) (body : Block) (rest : Rest)

/-- Statements, one after the other. -/
inductive Block where
  | done
  | next (first : Statement) (rest : Block)

/-- The cases of a switch. -/
inductive Cases where
  | done
  | next (head : Weight) (body : Block) (rest : Cases)

/-- How a chain of choices goes on after the first of them. -/
inductive Rest where
  | done
  | otherwise (body : Block)
  | elseIf (condition : Weight) (body : Block) (rest : Rest)

end

/-- A routine: what stands before its body, and its body. -/
structure Program where
  header : Weight
  body : Block

/-! ### What a program adds -/

def Block.isDone : Block → Bool
  | .done => true
  | .next _ _ => false

mutual

def Statement.tally (n d : Nat) (last : Bool) : Statement → Tally
  | .plain adds => adds n d last
  | .exit value =>
    { cognitive := if last then 0 else 1, exits := 1, early := [!last] } + value n d
  | .loop head body =>
    { cyclomatic := 1, cognitive := 1 + n, reach := d + 1 }
      + (head (n + 1) (d + 1) + body.tally (n + 1) (d + 1) false)
  | .switch head cases =>
    { cognitive := 1 + n, reach := d + 1 }
      + (head (n + 1) (d + 1) + cases.tally (n + 1) (d + 1))
  | .choice condition body rest =>
    { cyclomatic := 1, cognitive := 1 + n, reach := d + 1 }
      + (condition n d + (body.tally (n + 1) (d + 1) last + rest.tally n d last))

def Block.tally (n d : Nat) (last : Bool) : Block → Tally
  | .done => 0
  | .next first rest => first.tally n d (last && rest.isDone) + rest.tally n d last

def Cases.tally (n d : Nat) : Cases → Tally
  | .done => 0
  | .next head body rest =>
    { cyclomatic := 1 } + (head n d + body.tally n d false) + rest.tally n d

/-- A further choice of a chain adds one, on the level of the first. -/
def Rest.tally (n d : Nat) (last : Bool) : Rest → Tally
  | .done => 0
  | .otherwise body => { cognitive := 1 } + body.tally (n + 1) (d + 1) last
  | .elseIf condition body rest =>
    { cyclomatic := 1, cognitive := 1 }
      + (condition n d + (body.tally (n + 1) (d + 1) last + rest.tally n d last))

end

def Program.tally (program : Program) : Tally := program.header 0 0 + program.body.tally 0 0 true

/-! ### How a tree shows a program -/

open Complexity

/-- How a grammar writes the further choices of a chain. -/
inductive Style where
  /-- A further choice is the alternative of the one before it, and so is a bare block. -/
  | nested
  /-- Further choices are clauses of the first, with conditions of their own. -/
  | flat
  /-- The alternative is a clause that holds the next choice, or a block. -/
  | clausal
deriving DecidableEq, Repr

/-- Some parts hold others, through nodes that stand for nothing by themselves. -/
inductive Holds (g : Grammar) : List Tree → List Tree → Prop where
  | here (parts : List Tree) : Holds g parts parts
  | inside {t : Tree} {parts : List Tree} : Neutral g t → Holds g t.parts parts → Holds g [t] parts

/-- A node that holds parts of some sort and stands for nothing by itself. -/
def Encloses (g : Grammar) (t : Tree) (sort : List Tree → Prop) : Prop :=
  Neutral g t ∧ ∃ parts, Holds g t.parts parts ∧ sort parts

/-- Expressions add what a weight says. -/
def Weighs (g : Grammar) (ts : List Tree) (w : Weight) : Prop :=
  ∀ n d, inTurn g n d false ts = w n d

mutual

/-- A node shows a statement. -/
def Statement.Shown (g : Grammar) (style : Style) : Statement → Tree → Prop
  | .plain adds, t => ∀ n d last, tallyFrom g (.among n d .statement last) t = adds n d last
  | .exit value, t => Shaped g .exit t ∧ Weighs g t.parts value
  | .loop head body, t => Shaped g .loop t ∧ ∃ heads held,
      t.parts = heads ++ [held] ∧ Weighs g heads head ∧ Encloses g held (body.Shown g style)
  | .switch head cases, t => Shaped g .switch t ∧ ∃ heads held parts,
      t.parts = heads ++ held ∧ Weighs g heads head ∧ Holds g held parts ∧ cases.Shown g style parts
  | .choice condition body rest, t => ∃ c held alternatives,
      Branches g t c held alternatives ∧ Weighs g [c] condition ∧
      Encloses g held (body.Shown g style) ∧ rest.Shown g style alternatives

/-- Parts show statements; a statement may have nodes around it that stand for nothing. -/
def Block.Shown (g : Grammar) (style : Style) : Block → List Tree → Prop
  | .done, parts => parts = []
  | .next first rest, parts => ∃ t shown others,
      parts = t :: others ∧ Holds g [t] [shown] ∧ first.Shown g style shown ∧
      rest.Shown g style others

/-- Parts show the cases of a switch. -/
def Cases.Shown (g : Grammar) (style : Style) : Cases → List Tree → Prop
  | .done, parts => parts = []
  | .next head body rest, parts => ∃ t others heads held statements,
      parts = t :: others ∧ Shaped g .case t ∧ t.parts = heads ++ held ∧ Weighs g heads head ∧
      Holds g held statements ∧ body.Shown g style statements ∧ rest.Shown g style others

/-- The alternatives of a choice show how the chain goes on. -/
def Rest.Shown (g : Grammar) (style : Style) : Rest → List Tree → Prop
  | .done, alternatives => alternatives = []
  | .otherwise body, alternatives => ∃ t, alternatives = [t] ∧
      match style with
      | .nested => Encloses g t (body.Shown g style)
      | .flat | .clausal => ∃ held, Concludes g t held ∧ Encloses g held (body.Shown g style)
  | .elseIf condition body rest, alternatives => ∃ t c held more,
      Weighs g [c] condition ∧ Encloses g held (body.Shown g style) ∧ rest.Shown g style more ∧
      match style with
      | .nested => alternatives = [t] ∧ Branches g t c held more
      | .flat => alternatives = t :: more ∧ Continues g t c held
      | .clausal => ∃ next, alternatives = [t] ∧ Concludes g t next ∧ Branches g next c held more

end

/-- A routine shows a program. The statements are the parts of its body, or of a list in it. -/
structure Program.Shown (g : Grammar) (style : Style) (program : Program) (t : Tree) : Prop where
  isRoutine : g.isRoutine t = true
  isTidy : g.isTidy t = true
  parts : ∃ heads body statements, t.parts = heads ++ [body] ∧
    (∀ h ∈ heads, h.hasField "body" = false) ∧ body.hasField "body" = true ∧
    Weighs g heads program.header ∧ Neutral g body ∧ program.body.Shown g style statements ∧
    (isWrapper body = false ∧ Holds g body.parts statements ∨
      ∃ list, body.parts = [list] ∧ list.kind = "statement_list" ∧ Neutral g list ∧
        Holds g list.parts statements)

/-! ### A tree that shows a program adds its tally -/

variable {g : Grammar} {style : Style}

theorem inTurn_holds {xs ys : List Tree} (h : Holds g xs ys) (n d : Nat) (last : Bool) :
    inTurn g n d last xs = inTurn g n d last ys := by
  induction h with
  | here parts => rfl
  | inside neutral _ ih => rw [inTurn_singleton, tallyFrom_neutral neutral, ih]

section Encloses

variable {t : Tree} {sort : List Tree → Prop} {adds : Nat → Nat → Bool → Tally}

theorem Encloses.inTurn (h : Encloses g t sort)
    (shown : ∀ {parts}, sort parts → ∀ n d last, inTurn g n d last parts = adds n d last)
    (n d : Nat) (last : Bool) : inTurn g n d last t.parts = adds n d last := by
  obtain ⟨_, parts, holds, sorted⟩ := h
  rw [inTurn_holds holds, shown sorted]

theorem Encloses.tallyFrom (h : Encloses g t sort)
    (shown : ∀ {parts}, sort parts → ∀ n d last, Complexity.inTurn g n d last parts = adds n d last)
    (n d : Nat) (last : Bool) : tallyFrom g (.among n d .statement last) t = adds n d last := by
  rw [tallyFrom_neutral h.1, h.inTurn shown]

theorem Encloses.construct (h : Encloses g t sort) : g.construct? t = none :=
  (Grammar.isNeutral_iff.1 h.1.isNeutral).1

end Encloses

theorem Weighs.tallyFrom {c : Tree} {w : Weight} (h : Weighs g [c] w) (n d : Nat) :
    tallyFrom g (.among n d .statement false) c = w n d := by
  rw [← h n d, inTurn_singleton]

theorem Block.Shown.isEmpty : ∀ {b : Block} {parts : List Tree}, b.Shown g style parts →
    parts.isEmpty = b.isDone
  | .done, parts, h => by
    rw [Block.Shown] at h
    rw [h]
    rfl
  | .next first rest, parts, h => by
    rw [Block.Shown] at h
    obtain ⟨t, _, others, rfl, _⟩ := h
    rfl

section Choices

variable {t c held : Tree} {alternatives : List Tree} {condition : Weight} {sort : List Tree → Prop}
  {adds : Nat → Nat → Bool → Tally}

/-- A choice of a chain adds what its parts add, after what it adds itself. -/
theorem tallyFrom_choice (apart : g.Apart) (branches : Branches g t c held alternatives)
    (weighs : Weighs g [c] condition) (encloses : Encloses g held sort)
    (shown : ∀ {parts}, sort parts → ∀ n d last, inTurn g n d last parts = adds n d last)
    (n d : Nat) (role : Role) (last : Bool) : tallyFrom g (.among n d role last) t
      = visitTally g ⟨t, .among n d role last⟩
        + (condition n d
          + (adds (n + 1) (d + 1) last + ofAlternatives g n d last alternatives)) := by
  rw [tallyFrom_branches apart branches, weighs.tallyFrom, encloses.tallyFrom shown]

theorem visitTally_chained (construct : g.construct? t = some .branch) (n d : Nat)
    (last : Bool) : visitTally g ⟨t, .among n d .chained last⟩
      = { cyclomatic := 1, cognitive := 1, reach := d + 1 } := by
  simp [visitTally, score, Place.among, construct, early?]

/-- A choice that goes on with a chain adds the same as a clause, once its depth has been
    reached. -/
theorem reached_add_chained (apart : g.Apart) (branches : Branches g t c held alternatives)
    (weighs : Weighs g [c] condition) (encloses : Encloses g held sort)
    (shown : ∀ {parts}, sort parts → ∀ n d last, inTurn g n d last parts = adds n d last)
    {n d : Nat} {last : Bool} {rest : Tally} (others : Tally.reached (d + 1)
      + ofAlternatives g n d last alternatives = Tally.reached (d + 1) + rest) :
    Tally.reached (d + 1) + tallyFrom g (.among n d .chained last) t
      = Tally.reached (d + 1) + ({ cyclomatic := 1, cognitive := 1 }
        + (condition n d + (adds (n + 1) (d + 1) last + rest))) := by
  have absorbs : Tally.reached (d + 1) + { cyclomatic := 1, cognitive := 1, reach := d + 1 }
      = Tally.reached (d + 1) + { cyclomatic := 1, cognitive := 1 } :=
    Tally.ext rfl rfl ((Nat.max_self _).trans (Nat.max_zero _).symm) rfl rfl
  rw [tallyFrom_choice apart branches weighs encloses shown, visitTally_chained branches.construct,
    ← add_assoc, absorbs]
  simp only [← add_assoc]
  exact Tally.add_congr_reached
    (Tally.le_add_reach (Tally.le_add_reach (Tally.le_add_reach (Nat.le_refl _)))) others

end Choices

mutual

theorem Statement.Shown.tally (apart : g.Apart) : ∀ {s : Statement} {t : Tree}, s.Shown g style t →
    ∀ (n d : Nat) (last : Bool), tallyFrom g (.among n d .statement last) t = s.tally n d last
  | .plain adds, t, h, n, d, last => by
    rw [Statement.Shown] at h
    rw [h, Statement.tally]
  | .exit value, t, h, n, d, last => by
    rw [Statement.Shown] at h
    obtain ⟨shaped, weighs⟩ := h
    rw [tallyFrom_construct apart shaped nofun nofun nofun nofun, Statement.tally]
    exact congrArg _ (weighs n d)
  | .loop head body, t, h, n, d, last => by
    rw [Statement.Shown] at h
    obtain ⟨shaped, heads, held, parts, weighs, encloses⟩ := h
    have inside := encloses.tallyFrom (Block.Shown.tally apart) (n + 1) (d + 1) false
    rw [tallyFrom_construct apart shaped nofun nofun nofun nofun, parts, inTurn_append,
      inTurn_singleton, Statement.tally, weighs]
    exact congrArg _ (congrArg _ inside)
  | .switch head cases, t, h, n, d, last => by
    rw [Statement.Shown] at h
    obtain ⟨shaped, heads, held, parts, split, weighs, holds, shown⟩ := h
    rw [tallyFrom_construct apart shaped nofun nofun nofun nofun, split, inTurn_append,
      inTurn_holds holds, Statement.tally, weighs]
    exact congrArg _ (congrArg _ (Cases.Shown.tally apart shown (n + 1) (d + 1)))
  | .choice condition body rest, t, h, n, d, last => by
    rw [Statement.Shown] at h
    obtain ⟨c, held, alternatives, branches, weighs, encloses, shown⟩ := h
    rw [tallyFrom_choice apart branches weighs encloses (Block.Shown.tally apart),
      visitTally_standing apart branches.construct nofun, Statement.tally]
    -- the choice itself reaches its depth, so the further ones need not
    simp only [← add_assoc]
    exact Tally.add_congr_reached (Tally.le_add_reach (Tally.le_add_reach (Nat.le_refl _)))
      (Rest.Shown.tally apart shown n d last)

theorem Block.Shown.tally (apart : g.Apart) : ∀ {b : Block} {parts : List Tree},
    b.Shown g style parts →
    ∀ (n d : Nat) (last : Bool), inTurn g n d last parts = b.tally n d last
  | .done, parts, h, n, d, last => by
    rw [Block.Shown] at h
    rw [h, Block.tally, inTurn]
  | .next first rest, parts, h, n, d, last => by
    rw [Block.Shown] at h
    obtain ⟨t, shown, others, rfl, holds, here, next⟩ := h
    rw [inTurn, Block.tally, next.isEmpty, Block.Shown.tally apart next, ← inTurn_singleton,
      inTurn_holds holds, inTurn_singleton, Statement.Shown.tally apart here]

theorem Cases.Shown.tally (apart : g.Apart) : ∀ {cs : Cases} {parts : List Tree},
    cs.Shown g style parts → ∀ n d : Nat, inTurn g n d false parts = cs.tally n d
  | .done, parts, h, n, d => by
    rw [Cases.Shown] at h
    rw [h, Cases.tally, inTurn]
  | .next head body rest, parts, h, n, d => by
    rw [Cases.Shown] at h
    obtain ⟨t, others, heads, held, statements, rfl, shaped, split, weighs, holds, shown, next⟩ := h
    rw [inTurn, Bool.false_and, tallyFrom_construct apart shaped nofun nofun nofun nofun, split,
      inTurn_append, inTurn_holds holds, Cases.tally, weighs, Cases.Shown.tally apart next]
    exact congrArg (· + _) (congrArg _ (congrArg _ (Block.Shown.tally apart shown n d false)))

/-- How the chain goes on adds the same, once the depth of the first choice has been reached. -/
theorem Rest.Shown.tally (apart : g.Apart) : ∀ {r : Rest} {alternatives : List Tree},
    r.Shown g style alternatives → ∀ (n d : Nat) (last : Bool),
      Tally.reached (d + 1) + ofAlternatives g n d last alternatives
        = Tally.reached (d + 1) + r.tally n d last
  | .done, alternatives, h, n, d, last => by
    rw [Rest.Shown] at h
    rw [h, Rest.tally, ofAlternatives]
  | .otherwise body, alternatives, h, n, d, last => by
    rw [Rest.Shown] at h
    obtain ⟨t, rfl, h⟩ := h
    have inside : ∀ {parts}, body.Shown g style parts → ∀ n d last,
        inTurn g n d last parts = body.tally n d last := Block.Shown.tally apart
    have clause : (∃ held, Concludes g t held ∧ Encloses g held (body.Shown g style)) →
        ofAlternatives g n d last [t]
          = { cognitive := 1 } + body.tally (n + 1) (d + 1) last := by
      rintro ⟨held, concludes, encloses⟩
      have enters : enterAlternative g t = ((0, 0), .clause) := by
        simp [enterAlternative, concludes.construct]
      rw [ofAlternatives_cons enters, ofAlternatives, add_zero, Nat.add_zero, Nat.add_zero,
        tallyFrom_concludes apart concludes, if_neg (by simp [encloses.construct]),
        encloses.tallyFrom inside]
    rw [Rest.tally]
    -- a bare block is entered one level deeper, a clause leaves that to what it holds
    cases style with
    | nested =>
      have enters : enterAlternative g t = ((1, 1), .bareElse) := by
        simp [enterAlternative, h.construct]
      rw [ofAlternatives_cons enters, ofAlternatives, add_zero, tallyFrom_bareElse h.1,
        h.inTurn inside]
    | flat => rw [clause h]
    | clausal => rw [clause h]
  | .elseIf condition body rest, alternatives, h, n, d, last => by
    rw [Rest.Shown] at h
    obtain ⟨t, c, held, more, weighs, encloses, shown, h⟩ := h
    have inside : ∀ {parts}, body.Shown g style parts → ∀ n d last,
        inTurn g n d last parts = body.tally n d last := Block.Shown.tally apart
    have others := Rest.Shown.tally apart shown n d last
    rw [Rest.tally]
    cases style with
    | nested =>
      obtain ⟨rfl, branches⟩ := h
      have enters : enterAlternative g t = ((0, 0), .chained) := by
        simp [enterAlternative, branches.construct]
      rw [ofAlternatives_cons enters, ofAlternatives, add_zero, Nat.add_zero, Nat.add_zero]
      exact reached_add_chained apart branches weighs encloses inside others
    | flat =>
      obtain ⟨rfl, continues⟩ := h
      have enters : enterAlternative g t = ((0, 0), .clause) := by
        simp [enterAlternative, continues.construct]
      rw [ofAlternatives_cons enters, Nat.add_zero, Nat.add_zero,
        tallyFrom_continues apart continues, weighs.tallyFrom,
        encloses.tallyFrom inside]
      simp only [← add_assoc]
      exact Tally.add_congr_reached
        (Tally.le_add_reach (Tally.le_add_reach (Tally.le_add_reach (Nat.le_refl _)))) others
    | clausal =>
      obtain ⟨next, rfl, concludes, branches⟩ := h
      have enters : enterAlternative g t = ((0, 0), .clause) := by
        simp [enterAlternative, concludes.construct]
      rw [ofAlternatives_cons enters, ofAlternatives, add_zero, Nat.add_zero, Nat.add_zero,
        tallyFrom_concludes apart concludes, if_pos branches.construct]
      exact reached_add_chained apart branches weighs encloses inside others

end

/-! ### Routines -/

/-- What stands before the body of a routine is early. -/
theorem tallyAmong_routine (apart : g.Apart) {t body : Tree} (routine : g.isRoutine t = true)
    (isBody : body.hasField "body" = true) (part : body.isPart = true) {flow : Flow}
    (bodyFlow : (if isWrapper body then .wrapper else .body) = flow) :
    ∀ heads earlier : List Tree, (∀ h ∈ heads, h.hasField "body" = false) →
      (∀ h ∈ heads, h.isPart = true) → earlier.any (Tree.hasField "body") = false →
      tallyAmong g t start earlier (heads ++ [body])
        = inTurn g 0 0 false heads + tallyFrom g ⟨0, 0, .statement, flow, none⟩ body := by
  obtain ⟨construct, logical, _⟩ := apart.routine t routine
  have place : ∀ (earlier later : List Tree) {c : Tree}, c.isPart = true →
      placeOf? g t start earlier c later
        = some ⟨0, 0, .statement, flowOf g t .routine earlier c later, none⟩ := by
    intro earlier later c part
    rw [placeOf?_of_plain (by simp [construct]) (by simp [construct]) (by simp [construct]) logical
      start earlier later part, construct]
    rfl
  -- by induction on what stands before the body, none of it in the body's field
  intro heads
  induction heads with
  | nil =>
    intro earlier _ _ without
    have first : isFirstIn "body" earlier body = true := by simp [isFirstIn, isBody, without]
    rw [List.nil_append, tallyAmong_cons, place _ _ part, tallyAmong_nil, add_zero, inTurn,
      zero_add]
    simp only [flowOf, first, if_true, bodyFlow]
    rfl
  | cons c rest ih =>
    intro earlier fields parts without
    have field := fields c List.mem_cons_self
    have other : isFirstIn "body" earlier c = false := by simp [isFirstIn, field]
    rw [List.cons_append, tallyAmong_cons, place _ _ (parts c List.mem_cons_self),
      ih (c :: earlier) (fun h hh => fields h (List.mem_cons_of_mem _ hh))
        (fun h hh => parts h (List.mem_cons_of_mem _ hh)) (by simp [field, without]),
      inTurn, Bool.false_and, add_assoc]
    simp only [flowOf, other]
    rfl

/-- The statements of a body end where the routine ends. -/
theorem tallyFrom_body {t : Tree} (neutral : Neutral g t) :
    tallyFrom g ⟨0, 0, .statement, .body, none⟩ t = inTurn g 0 0 true t.parts := by
  rw [neutral.tallyFrom rfl, tallyAmong_neutral neutral (Or.inr ⟨rfl, rfl⟩)]

/-- A body that holds nothing but a list of statements. -/
theorem tallyFrom_wrapper {t list : Tree} (neutral : Neutral g t) (neutral' : Neutral g list)
    (parts : t.parts = [list]) :
    tallyFrom g ⟨0, 0, .statement, .wrapper, none⟩ t = inTurn g 0 0 true list.parts := by
  obtain ⟨construct, logical, _⟩ := Grammar.isNeutral_iff.1 neutral.isNeutral
  have part : list.isPart = true := isPart_of_mem_parts (by rw [parts]; simp)
  rw [neutral.tallyFrom rfl, parts, tallyAmong_cons, tallyAmong_nil, add_zero,
    placeOf?_of_plain (by simp [construct]) (by simp [construct]) (by simp [construct]) logical
      _ _ _ part, construct, ← tallyFrom_body neutral']
  simp only [flowOf, part, if_true]
  rfl

/-- A routine that shows a program adds the tally of the program. -/
theorem Program.Shown.tally (apart : g.Apart) {program : Program} {t : Tree}
    (h : program.Shown g style t) : tallyOf g (visits g t) = program.tally := by
  obtain ⟨heads, body, statements, parts, fields, isBody, weighs, neutral, shown, held⟩ := h.parts
  have mem : ∀ c ∈ heads ++ [body], c.isPart = true := fun c hc =>
    isPart_of_mem_parts (by rwa [parts])
  obtain ⟨flow, bodyFlow, inside⟩ : ∃ flow, (if isWrapper body then .wrapper else .body) = flow ∧
      tallyFrom g ⟨0, 0, .statement, flow, none⟩ body = program.body.tally 0 0 true := by
    rw [← Block.Shown.tally apart shown]
    rcases held with ⟨wrapper, holds⟩ | ⟨list, only, kind, neutral', holds⟩
    · refine ⟨.body, by rw [wrapper]; rfl, ?_⟩
      rw [tallyFrom_body neutral, inTurn_holds holds]
    · have wrapper : isWrapper body = true := by
        rw [isWrapper, Tree.onlyPart?, only]
        exact beq_iff_eq.2 kind
      refine ⟨.wrapper, by rw [wrapper]; rfl, ?_⟩
      rw [tallyFrom_wrapper neutral neutral' only, inTurn_holds holds]
  calc tallyOf g (visits g t) = tallyAmong g t start [] t.children := rfl
    _ = tallyAmong g t start [] t.parts :=
        tallyAmong_parts t start t.children [] (List.all_eq_true.1 h.isTidy) (List.forall_mem_nil _)
    _ = program.tally := by
        rw [parts, tallyAmong_routine apart h.isRoutine isBody (mem body (by simp)) bodyFlow heads
          [] fields (fun c hc => mem c (by simp [hc])) rfl, weighs, inside, Program.tally]

/-! ### A chain in three languages -/

/-- A chain that ends a routine, with a loop in its second choice and an exit in each. -/
def chainWithLoop : Program where
  header _ _ := 0
  body :=
    let exit := Block.next (.exit fun _ _ => 0) .done
    let loop := Block.next (.loop (fun _ _ => 0) exit) .done
    .next (.plain fun _ _ _ => 0) <|
      .next (.choice (fun _ _ => 0) exit (.elseIf (fun _ _ => 0) loop (.otherwise exit))) .done

open CodeMetrics.Tree in
def goChain : Tree :=
  let condition := part "identifier" (some "condition") []
  let exits := [part "statement_list" none [part "return_statement" none [word "return"]]]
  let loop := part "for_statement" none
    [word "for", part "identifier" none [], part "block" (some "body") exits]
  part "function_declaration" none
    [word "func", part "identifier" (some "name") [], part "block" (some "body")
      [part "statement_list" none
        [part "expression_statement" none [part "identifier" none []],
         part "if_statement" none
          [word "if", condition, part "block" (some "consequence") exits, word "else",
           part "if_statement" (some "alternative")
            [word "if", condition, part "block" (some "consequence") [loop], word "else",
             part "block" (some "alternative") exits]]]]]

open CodeMetrics.Tree in
def pythonChain : Tree :=
  let condition := part "identifier" (some "condition") []
  let exits := [part "return_statement" none [word "return"]]
  let loop := part "for_statement" none
    [word "for", part "identifier" (some "left") [], word "in", part "identifier" (some "right") [],
     word ":", part "block" (some "body") exits]
  part "function_definition" none
    [word "def", part "identifier" (some "name") [], part "parameters" (some "parameters") [],
     part "block" (some "body")
      [part "expression_statement" none [part "identifier" none []],
       part "if_statement" none
        [word "if", condition, word ":", part "block" (some "consequence") exits,
         part "elif_clause" (some "alternative")
          [word "elif", condition, word ":", part "block" (some "consequence") [loop]],
         part "else_clause" (some "alternative")
          [word "else", word ":", part "block" (some "body") exits]]]]

open CodeMetrics.Tree in
def rustChain : Tree :=
  let condition := part "identifier" (some "condition") []
  let exits := [part "expression_statement" none
    [part "return_expression" none [word "return"], word ";"]]
  let loop := part "expression_statement" none
    [part "loop_expression" none [word "loop", part "block" (some "body") exits]]
  part "function_item" none
    [word "fn", part "identifier" (some "name") [], part "block" (some "body")
      [part "expression_statement" none [part "identifier" none [], word ";"],
       part "if_expression" none
        [word "if", condition, part "block" (some "consequence") exits,
         part "else_clause" (some "alternative")
          [word "else", .node { kind := "line_comment", extra := true } [],
           part "if_expression" none
            [word "if", condition, part "block" (some "consequence") [loop],
             part "else_clause" (some "alternative") [word "else", part "block" none exits]]]]]]

theorem Weighs.of_isQuiet {ts : List Tree} (quiet : ts.all g.isQuiet = true) :
    Weighs g ts fun _ _ => 0 := by
  intro n d
  induction ts with
  | nil => rfl
  | cons t rest ih =>
    rw [List.all_cons, Bool.and_eq_true] at quiet
    rw [inTurn, tallyFrom_quiet quiet.1 rfl, ih quiet.2, zero_add]

theorem goChain_shows : chainWithLoop.Shown Grammar.go .nested goChain := by
  have exits : ∀ field, Encloses Grammar.go
      (.part "block" field
        [.part "statement_list" none [.part "return_statement" none [.word "return"]]])
      ((Block.next (.exit fun _ _ => 0) .done).Shown Grammar.go .nested) := by
    intro field
    simp only [Block.Shown, Statement.Shown]
    exact ⟨⟨rfl, rfl, rfl⟩, _, .inside (by decide +kernel) (.here _), _, _, _, rfl, .here _,
      ⟨by decide +kernel, .of_isQuiet rfl⟩, rfl⟩
  refine ⟨by decide +kernel, by decide +kernel, [_], _, _, rfl, by decide +kernel,
    by decide +kernel, .of_isQuiet (by decide +kernel), by decide +kernel, ?_,
    Or.inr ⟨_, rfl, rfl, by decide +kernel, .here _⟩⟩
  simp only [chainWithLoop, Block.Shown, Statement.Shown, Rest.Shown] at exits ⊢
  refine ⟨_, _, _, rfl, .here _, fun _ _ _ => tallyFrom_quiet (by decide +kernel) rfl,
    _, _, _, rfl, .here _, ⟨_, _, _, ⟨by decide +kernel, by decide +kernel, rfl, by decide +kernel⟩,
      .of_isQuiet (by decide +kernel), exits _, ?_⟩, rfl⟩
  -- the further choice with its loop, and the bare block
  exact ⟨_, _, _, _, .of_isQuiet (by decide +kernel),
    ⟨by decide +kernel, _, .here _, _, _, _, rfl, .here _,
      ⟨by decide +kernel, [_], _, rfl, .of_isQuiet (by decide +kernel), exits _⟩, rfl⟩,
    ⟨_, rfl, exits _⟩, rfl, ⟨by decide +kernel, by decide +kernel, rfl, by decide +kernel⟩⟩

theorem pythonChain_shows : chainWithLoop.Shown Grammar.python .flat pythonChain := by
  have exits : ∀ field, Encloses Grammar.python
      (.part "block" field [.part "return_statement" none [.word "return"]])
      ((Block.next (.exit fun _ _ => 0) .done).Shown Grammar.python .flat) := by
    intro field
    simp only [Block.Shown, Statement.Shown]
    exact ⟨⟨rfl, rfl, rfl⟩, _, .here _, _, _, _, rfl, .here _,
      ⟨by decide +kernel, .of_isQuiet rfl⟩, rfl⟩
  refine ⟨by decide +kernel, by decide +kernel, [_, _], _, _, rfl, by decide +kernel,
    by decide +kernel, .of_isQuiet (by decide +kernel), by decide +kernel, ?_,
    Or.inl ⟨by decide +kernel, .here _⟩⟩
  simp only [chainWithLoop, Block.Shown, Statement.Shown, Rest.Shown] at exits ⊢
  refine ⟨_, _, _, rfl, .here _, fun _ _ _ => tallyFrom_quiet (by decide +kernel) rfl,
    _, _, _, rfl, .here _, ⟨_, _, _, ⟨by decide +kernel, by decide +kernel, rfl, by decide +kernel⟩,
      .of_isQuiet (by decide +kernel), exits _, ?_⟩, rfl⟩
  -- the clause with its loop, and the last clause
  exact ⟨_, _, _, _, .of_isQuiet (by decide +kernel),
    ⟨by decide +kernel, _, .here _, _, _, _, rfl, .here _,
      ⟨by decide +kernel, [_, _], _, rfl, .of_isQuiet (by decide +kernel), exits _⟩, rfl⟩,
    ⟨_, rfl, _, ⟨by decide +kernel, rfl⟩, exits _⟩, rfl,
    ⟨by decide +kernel, by decide +kernel, rfl⟩⟩

theorem rustChain_shows : chainWithLoop.Shown Grammar.rust .clausal rustChain := by
  have exits : ∀ field, Encloses Grammar.rust
      (.part "block" field [.part "expression_statement" none
        [.part "return_expression" none [.word "return"], .word ";"]])
      ((Block.next (.exit fun _ _ => 0) .done).Shown Grammar.rust .clausal) := by
    intro field
    simp only [Block.Shown, Statement.Shown]
    exact ⟨⟨rfl, rfl, rfl⟩, _, .here _, _, _, _, rfl, .inside (by decide +kernel) (.here _),
      ⟨by decide +kernel, .of_isQuiet rfl⟩, rfl⟩
  refine ⟨by decide +kernel, by decide +kernel, [_], _, _, rfl, by decide +kernel,
    by decide +kernel, .of_isQuiet (by decide +kernel), by decide +kernel, ?_,
    Or.inl ⟨by decide +kernel, .here _⟩⟩
  simp only [chainWithLoop, Block.Shown, Statement.Shown, Rest.Shown] at exits ⊢
  refine ⟨_, _, _, rfl, .here _, fun _ _ _ => tallyFrom_quiet (by decide +kernel) rfl,
    _, _, _, rfl, .here _, ⟨_, _, _, ⟨by decide +kernel, by decide +kernel, rfl, by decide +kernel⟩,
      .of_isQuiet (by decide +kernel), exits _, ?_⟩, rfl⟩
  -- the clause that holds the further choice, and in that the last clause
  exact ⟨_, _, _, _, .of_isQuiet (by decide +kernel),
    ⟨by decide +kernel, _, .here _, _, _, _, rfl, .inside (by decide +kernel) (.here _),
      ⟨by decide +kernel, [], _, rfl, .of_isQuiet (by decide +kernel), exits _⟩, rfl⟩,
    ⟨_, rfl, _, ⟨by decide +kernel, rfl⟩, exits _⟩, _, rfl, ⟨by decide +kernel, rfl⟩,
    ⟨by decide +kernel, by decide +kernel, rfl, by decide +kernel⟩⟩

/-! ### All styles score alike -/

/-- Chains of choices score alike in all styles: the trees of a program have the same measures, and
    the same exits are early in them. -/
theorem chains_score_alike (program : Program) (l₁ l₂ l₃ : Language) {nested flat clausal : Tree}
    (h₁ : program.Shown l₁.grammar .nested nested) (h₂ : program.Shown l₂.grammar .flat flat)
    (h₃ : program.Shown l₃.grammar .clausal clausal) :
    Complexity.of l₁.grammar nested = Complexity.of l₂.grammar flat ∧
      Complexity.of l₂.grammar flat = Complexity.of l₃.grammar clausal ∧
      earlyExits l₁.grammar nested = earlyExits l₂.grammar flat ∧
      earlyExits l₂.grammar flat = earlyExits l₃.grammar clausal := by
  have tally₁ := h₁.tally l₁.apart
  have tally₂ := h₂.tally l₂.apart
  have tally₃ := h₃.tally l₃.apart
  simp only [of_eq, earlyExits, ← tallyOf_early, tally₁, tally₂, tally₃, and_self]

theorem chains_score_alike_chainWithLoop :
    (chainWithLoop.Shown Language.go.grammar .nested goChain ∧
      chainWithLoop.Shown Language.python.grammar .flat pythonChain ∧
      chainWithLoop.Shown Language.rust.grammar .clausal rustChain) ∧
    (Complexity.of Grammar.go goChain = ⟨4, 6, 2, 3⟩ ∧
      earlyExits Grammar.go goChain = [false, true, false]) ∧
    Complexity.of Grammar.go goChain = Complexity.of Grammar.python pythonChain ∧
      Complexity.of Grammar.python pythonChain = Complexity.of Grammar.rust rustChain ∧
      earlyExits Grammar.go goChain = earlyExits Grammar.python pythonChain ∧
      earlyExits Grammar.python pythonChain = earlyExits Grammar.rust rustChain :=
  ⟨⟨goChain_shows, pythonChain_shows, rustChain_shows⟩, ⟨by decide +kernel, by decide +kernel⟩,
    chains_score_alike chainWithLoop .go .python .rust goChain_shows pythonChain_shows
      rustChain_shows⟩

end CodeMetrics
