import Mathlib.Algebra.Group.Defs
import CodeMetrics.Proofs.Entries
import CodeMetrics.Proofs.Grammar
import CodeMetrics.Proofs.Sites

/-! What stretches of code add to the measures of their routine. Tallies add up along the walk, so
    the tally of a node is what the node adds and the tallies of its parts, each at its place.
    Words, signs and comments add nothing and change no place. -/

namespace CodeMetrics

/-- What a stretch of code adds: its scores, and for each exit in it whether it is early. -/
@[ext] structure Tally where
  cyclomatic : Nat := 0
  cognitive : Nat := 0
  reach : Nat := 0
  exits : Nat := 0
  early : List Bool := []
deriving DecidableEq, Repr

namespace Tally

instance : Zero Tally := ⟨{}⟩

/-- One stretch after the other. -/
instance : Add Tally where
  add a b :=
    { cyclomatic := a.cyclomatic + b.cyclomatic
      cognitive := a.cognitive + b.cognitive
      reach := max a.reach b.reach
      exits := a.exits + b.exits
      early := a.early ++ b.early }

instance : AddMonoid Tally where
  add_assoc a b c := Tally.ext (Nat.add_assoc _ _ _) (Nat.add_assoc _ _ _) (Nat.max_assoc _ _ _)
    (Nat.add_assoc _ _ _) (List.append_assoc _ _ _)
  zero_add b := Tally.ext (Nat.zero_add _) (Nat.zero_add _) (Nat.zero_max _) (Nat.zero_add _)
    (List.nil_append _)
  add_zero a := Tally.ext (Nat.add_zero _) (Nat.add_zero _) (Nat.max_zero _) (Nat.add_zero _)
    (List.append_nil _)
  nsmul := nsmulRec

theorem le_add_reach {a b : Tally} {depth : Nat} (h : depth ≤ a.reach) : depth ≤ (a + b).reach :=
  Nat.le_trans h (Nat.le_max_left _ _)

/-- Reaching a depth and nothing else. -/
def reached (depth : Nat) : Tally := { reach := depth }

theorem add_reached {a : Tally} {depth : Nat} (h : depth ≤ a.reach) : a + reached depth = a :=
  Tally.ext rfl rfl (Nat.max_eq_left h) rfl (List.append_nil _)

/-- After a stretch that reaches a depth, it does not matter whether the next one reaches it. -/
theorem add_congr_reached {a x y : Tally} {depth : Nat} (h : depth ≤ a.reach)
    (e : reached depth + x = reached depth + y) : a + x = a + y := by
  rw [← add_reached h, add_assoc, e, ← add_assoc]

/-- The measures of a routine that holds a stretch. -/
def complexity (a : Tally) : Complexity := ⟨1 + a.cyclomatic, a.cognitive, a.reach, a.exits⟩

end Tally

namespace Complexity

/-- Whether an exit is early: something may come after it. -/
def early? (g : Grammar) (v : Visit) : Option Bool :=
  if g.construct? v.tree = some .exit then some (v.place.flow != .tail) else none

/-- For each exit of a routine, in source order, whether it is early. -/
def earlyExits (g : Grammar) (routine : Tree) : List Bool :=
  (visits g routine).filterMap (early? g)

/-- What a node adds at its place. -/
def visitTally (g : Grammar) (v : Visit) : Tally where
  cyclomatic := (score g v).cyclomatic
  cognitive := (score g v).cognitive
  reach := (score g v).reach
  exits := (score g v).exits
  early := (early? g v).toList

/-- What some visits add. -/
def tallyOf (g : Grammar) : List Visit → Tally
  | [] => 0
  | v :: rest => visitTally g v + tallyOf g rest

theorem tallyOf_append (g : Grammar) (xs ys : List Visit) :
    tallyOf g (xs ++ ys) = tallyOf g xs + tallyOf g ys := by
  induction xs with
  | nil => rw [List.nil_append, tallyOf, zero_add]
  | cons v rest ih => rw [List.cons_append, tallyOf, tallyOf, ih, add_assoc]

theorem tallyOf_early (g : Grammar) (vs : List Visit) :
    (tallyOf g vs).early = vs.filterMap (early? g) := by
  induction vs with
  | nil => rfl
  | cons v rest ih =>
    have split : (tallyOf g (v :: rest)).early
        = (early? g v).toList ++ (tallyOf g rest).early := rfl
    rw [split, ih, List.filterMap_cons]
    cases early? g v <;> rfl

theorem foldl_max (depth : Nat) (g : Grammar) (vs : List Visit) :
    ((vs.map (score g)).map (·.reach)).foldl max depth = max depth (tallyOf g vs).reach := by
  induction vs generalizing depth with
  | nil => exact (Nat.max_zero _).symm
  | cons v rest ih =>
    rw [List.map_cons, List.map_cons, List.foldl_cons, ih, Nat.max_assoc]
    rfl

theorem ofScores_visits (g : Grammar) (vs : List Visit) :
    ofScores (vs.map (score g)) = (tallyOf g vs).complexity := by
  have sums : sumOf ((vs.map (score g)).map (·.cyclomatic)) = (tallyOf g vs).cyclomatic ∧
      sumOf ((vs.map (score g)).map (·.cognitive)) = (tallyOf g vs).cognitive ∧
      sumOf ((vs.map (score g)).map (·.exits)) = (tallyOf g vs).exits := by
    induction vs with
    | nil => exact ⟨rfl, rfl, rfl⟩
    | cons v rest ih =>
      obtain ⟨h₁, h₂, h₃⟩ := ih
      simp only [List.map_cons, sumOf_cons, h₁, h₂, h₃]
      exact ⟨rfl, rfl, rfl⟩
  rw [ofScores, foldl_max, Nat.zero_max, sums.1, sums.2.1, sums.2.2]
  rfl

/-- The measures of a routine are those of what it holds. -/
theorem of_eq (g : Grammar) (routine : Tree) :
    Complexity.of g routine = (tallyOf g (visits g routine)).complexity :=
  ofScores_visits g _

/-- What the code at and below a node adds, with the node at a place. -/
def tallyFrom (g : Grammar) (p : Place) (t : Tree) : Tally := tallyOf g (visitsFrom g p t)

/-- What some children of a node add, with the node at a place. -/
def tallyAmong (g : Grammar) (parent : Tree) (p : Place) (earlier cs : List Tree) : Tally :=
  tallyOf g (visitsAmong g parent p earlier cs)

variable {g : Grammar}

theorem tallyFrom_eq (p : Place) (t : Tree) : tallyFrom g p t
    = visitTally g ⟨t, p⟩ + if g.isRoutine t then 0 else tallyAmong g t p [] t.children := by
  rw [tallyFrom, visitsFrom_eq, tallyOf]
  cases g.isRoutine t <;> rfl

theorem tallyAmong_nil (t : Tree) (p : Place) (earlier : List Tree) :
    tallyAmong g t p earlier [] = 0 := by
  rw [tallyAmong, visitsAmong]; rfl

theorem tallyAmong_cons (t : Tree) (p : Place) (earlier : List Tree) (c : Tree)
    (later : List Tree) : tallyAmong g t p earlier (c :: later)
    = ((placeOf? g t p earlier c later).elim 0 fun q => tallyFrom g q c)
      + tallyAmong g t p (c :: earlier) later := by
  rw [tallyAmong, visitsAmong_cons, tallyOf_append]
  cases placeOf? g t p earlier c later <;> rfl

end Complexity

/-! ### Code that adds nothing -/

namespace Grammar

/-- A node that is neither a construct nor a logical operation and has no guard. -/
def isNeutral (g : Grammar) (t : Tree) : Bool :=
  (g.construct? t).isNone && (g.logicalOperator? t).isNone && !g.isGuarded t

/-- Code that adds nothing: all nodes of it are neutral. -/
def isQuiet (g : Grammar) (t : Tree) : Bool := t.nodes.all g.isNeutral

/-- A child that is no part of its parent, adds nothing and is in no field that the walk asks
    for. -/
def isFiller (g : Grammar) (t : Tree) : Bool :=
  !t.isPart && g.isQuiet t
    && !(t.hasField "condition" || t.hasField "alternative" || t.hasField "body")

/-- Whether all that a node holds besides its parts is filler. -/
def isTidy (g : Grammar) (t : Tree) : Bool := t.children.all fun c => c.isPart || g.isFiller c

theorem isQuiet_eq (g : Grammar) (t : Tree) :
    g.isQuiet t = (g.isNeutral t && t.children.all g.isQuiet) := by
  rw [isQuiet, Tree.nodes, Tree.walk_eq, List.all_cons, List.all_flatMap]
  rfl

theorem isNeutral_iff {g : Grammar} {t : Tree} : g.isNeutral t = true ↔
    g.construct? t = none ∧ g.logicalOperator? t = none ∧ g.isGuarded t = false := by
  simp [isNeutral, and_assoc]

end Grammar

namespace Complexity

variable {g : Grammar}

theorem visitTally_neutral {t : Tree} (neutral : g.isNeutral t = true) {p : Place}
    (role : p.role = .statement) : visitTally g ⟨t, p⟩ = 0 := by
  obtain ⟨hc, hl, hg⟩ := Grammar.isNeutral_iff.1 neutral
  have plain : score g ⟨t, p⟩ = {} := by
    cases g.isRoutine t <;> simp [score, role, statementScore, hc, plainScore, hl, hg]
  simp only [visitTally, plain, early?, hc]
  rfl

theorem tallyFrom_quiet {t : Tree} (quiet : g.isQuiet t = true) :
    ∀ {p : Place}, p.role = .statement → tallyFrom g p t = 0 := by
  induction t using Tree.induct with
  | node label children ih =>
    intro p role
    rw [Grammar.isQuiet_eq, Bool.and_eq_true, List.all_eq_true] at quiet
    obtain ⟨neutral, quiets⟩ := quiet
    obtain ⟨hc, _, _⟩ := Grammar.isNeutral_iff.1 neutral
    have among : ∀ cs earlier : List Tree, (∀ c ∈ cs, c ∈ children) →
        tallyAmong g (.node label children) p earlier cs = 0 := by
      intro cs
      induction cs with
      | nil => intro earlier _; exact tallyAmong_nil _ _ _
      | cons c rest ihrest =>
        intro earlier sub
        have mem := sub c List.mem_cons_self
        rw [tallyAmong_cons, ihrest _ fun d hd => sub d (List.mem_cons_of_mem _ hd), add_zero,
          placeOf?, enter?_plain (by simp [hc]) (by simp [hc]), enterNamed]
        split
        · exact ih c mem (quiets c mem) rfl
        · rfl
    rw [tallyFrom_eq, visitTally_neutral neutral role, zero_add]
    split
    · rfl
    · exact among children [] fun _ h => h

/-! ### The parts of a node -/

theorem isFiller_iff {c : Tree} : g.isFiller c = true ↔ c.isPart = false ∧ g.isQuiet c = true ∧
    c.hasField "condition" = false ∧ c.hasField "alternative" = false ∧
    c.hasField "body" = false := by
  simp [Grammar.isFiller, and_assoc]

/-- A filler is not entered, or as a statement. -/
theorem enter?_filler {t c : Tree} (filler : g.isFiller c = true) {role : Role}
    {earlier : List Tree} {e : Entry} (h : enter? g t role earlier c = some e) :
    e.2 = .statement := by
  obtain ⟨part, _, _, alternative, _⟩ := isFiller_iff.1 filler
  unfold enter? at h
  rw [part, alternative] at h
  split at h
  · exact congrArg Prod.snd (enterNamed_eq h)
  · split at h
    · cases h
    · exact congrArg Prod.snd (enterNamed_eq h)
  · exact congrArg Prod.snd (enterNamed_eq h)
  · exact congrArg Prod.snd (enterNamed_eq h)

/-- Wherever a filler stands, it adds nothing. -/
theorem tally_filler {t c : Tree} (filler : g.isFiller c = true) {p : Place}
    {earlier later : List Tree} :
    ((placeOf? g t p earlier c later).elim 0 fun q => tallyFrom g q c) = 0 := by
  rw [placeOf?]
  cases h : enter? g t p.role earlier c with
  | none => rfl
  | some e => exact tallyFrom_quiet (isFiller_iff.1 filler).2.1 (enter?_filler filler h)

section Parts

variable {earlier : List Tree} (tidy : ∀ c ∈ earlier, (c.isPart || g.isFiller c) = true)

include tidy

/-- Fillers do not matter for which child is the first one in a field. -/
theorem isFirstIn_parts (c : Tree) {field : String} (asked : field = "condition" ∨ field = "body") :
    isFirstIn field earlier c = isFirstIn field (earlier.filter Tree.isPart) c := by
  have without : ∀ e ∈ earlier, e.hasField field = (e.isPart && e.hasField field) := by
    intro e he
    cases part : e.isPart with
    | true => rw [Bool.true_and]
    | false =>
      obtain ⟨_, _, condition, _, body⟩ := isFiller_iff.1 (by simpa [part] using tidy e he)
      rcases asked with rfl | rfl
      · rw [condition, Bool.false_and]
      · rw [body, Bool.false_and]
  have same : earlier.any (Tree.hasField field)
      = earlier.any fun e => e.isPart && e.hasField field := by
    rw [Bool.eq_iff_iff, List.any_eq_true, List.any_eq_true]
    exact exists_congr fun e => and_congr_right fun he => by rw [← without e he]
  rw [isFirstIn, isFirstIn, List.any_filter, same]

/-- Fillers do not matter for the place of a part. -/
theorem placeOf?_parts (t : Tree) (p : Place) (c : Tree) (later : List Tree) :
    placeOf? g t p earlier c later
      = placeOf? g t p (earlier.filter Tree.isPart) c (later.filter Tree.isPart) := by
  have condition := isFirstIn_parts tidy c (Or.inl rfl)
  have body := isFirstIn_parts tidy c (Or.inr rfl)
  have last : isLastPart c later = isLastPart c (later.filter Tree.isPart) := by
    simp only [isLastPart, List.any_filter, Bool.and_self]
  have enters : enter? g t p.role earlier c = enter? g t p.role (earlier.filter Tree.isPart) c := by
    simp only [enter?, enterGuarded, condition]
  have flows : flowOf g t p.flow earlier c later
      = flowOf g t p.flow (earlier.filter Tree.isPart) c (later.filter Tree.isPart) := by
    simp only [flowOf, condition, body, last]
  rw [placeOf?, placeOf?, enters, flows]

end Parts

theorem tallyAmong_parts (t : Tree) (p : Place) : ∀ (cs earlier : List Tree),
    (∀ c ∈ cs, (c.isPart || g.isFiller c) = true) →
    (∀ c ∈ earlier, (c.isPart || g.isFiller c) = true) →
    tallyAmong g t p earlier cs
      = tallyAmong g t p (earlier.filter Tree.isPart) (cs.filter Tree.isPart)
  | [], earlier, _, _ => by rw [List.filter_nil, tallyAmong_nil, tallyAmong_nil]
  | c :: later, earlier, tidy, tidy' => by
    have here := tidy c List.mem_cons_self
    have rest := tallyAmong_parts t p later (c :: earlier)
      (fun d hd => tidy d (List.mem_cons_of_mem _ hd)) (List.forall_mem_cons.2 ⟨here, tidy'⟩)
    rw [tallyAmong_cons, rest]
    cases part : c.isPart with
    | true =>
      rw [List.filter_cons_of_pos part, List.filter_cons_of_pos part, tallyAmong_cons,
        placeOf?_parts tidy']
    | false =>
      have filler : g.isFiller c = true := by simpa [part] using here
      rw [List.filter_cons_of_neg (by simp [part]), List.filter_cons_of_neg (by simp [part]),
        tally_filler filler, zero_add]

/-- What a tidy node adds is what it adds itself and what its parts add. -/
theorem tallyFrom_parts {t : Tree} (routine : g.isRoutine t = false) (tidy : g.isTidy t = true)
    (p : Place) : tallyFrom g p t = visitTally g ⟨t, p⟩ + tallyAmong g t p [] t.parts := by
  have parts := tallyAmong_parts t p t.children [] (List.all_eq_true.1 tidy) (List.forall_mem_nil _)
  rw [tallyFrom_eq, routine, parts]
  rfl

end Complexity

end CodeMetrics
