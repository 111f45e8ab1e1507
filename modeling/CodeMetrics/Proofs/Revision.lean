import CodeMetrics.Language.Descriptor
import CodeMetrics.Measure.Routine
import CodeMetrics.Proofs.Padded
import CodeMetrics.Proofs.Sites

/-! Trees that comments were put into. A revision is a tree before and after at once: every node of
    it is in both trees, with its stretch of the source in each, and between its children there may
    be comments that are only in the second tree. What a grammar asks of a single node is the same
    before and after. -/

namespace CodeMetrics

mutual

/-- A tree before and after comments were put into it. -/
inductive Revision where
  /-- A node of both trees; `start` and `stop` are its stretch of the source afterwards. -/
  | node (label : Label) (start stop : Nat) (children : Revisions)

/-- The children of a node before and after. -/
inductive Revisions where
  | nil
  /-- A child of both nodes. -/
  | keep (child : Revision) (rest : Revisions)
  /-- A comment that was put in. -/
  | put (comment : Label) (rest : Revisions)

end

mutual

/-- The tree without the comments. -/
def Revision.before : Revision → Tree
  | .node label _ _ children => .node label children.before

/-- The children without the comments. -/
def Revisions.before : Revisions → List Tree
  | .nil => []
  | .keep child rest => child.before :: rest.before
  | .put _ rest => rest.before

end

mutual

/-- The tree with the comments. -/
def Revision.after : Revision → Tree
  | .node label start stop children => .node { label with start, stop } children.after

/-- The children with the comments. -/
def Revisions.after : Revisions → List Tree
  | .nil => []
  | .keep child rest => child.after :: rest.after
  | .put comment rest => .node comment [] :: rest.after

end

namespace Revisions

/-- The children that are in both trees. -/
def kept : Revisions → List Revision
  | .nil => []
  | .keep child rest => child :: rest.kept
  | .put _ rest => rest.kept

/-- The comments that were put in. -/
def comments : Revisions → List Label
  | .nil => []
  | .keep _ rest => rest.comments
  | .put comment rest => comment :: rest.comments

end Revisions

def Revision.children : Revision → Revisions
  | .node _ _ _ children => children

mutual

/-- The nodes that are in both trees. -/
def Revision.nodes : Revision → List Revision
  | .node label start stop children => .node label start stop children :: children.nodes

/-- The nodes at and below some children. -/
def Revisions.nodes : Revisions → List Revision
  | .nil => []
  | .keep child rest => child.nodes ++ rest.nodes
  | .put _ rest => rest.nodes

end

/-- A node and what became of it, for one of some revisions. -/
def Revised (among : List Revision) (t t' : Tree) : Prop := ∃ x ∈ among, t = x.before ∧ t' = x.after

/-! ### Induction -/

theorem Revisions.induct {P : Revisions → Prop} (nil : P .nil)
    (keep : ∀ child rest, P rest → P (.keep child rest))
    (put : ∀ comment rest, P rest → P (.put comment rest)) : ∀ ds, P ds
  | .nil => nil
  | .keep child rest => keep child rest (induct nil keep put rest)
  | .put comment rest => put comment rest (induct nil keep put rest)

/-- What holds of a node whenever it holds of its children in both trees holds of every node. -/
theorem Revision.induct {P : Revision → Prop} (node : ∀ x, (∀ y ∈ x.children.kept, P y) → P x) :
    ∀ x, P x
  | .node label start stop children => node (.node label start stop children) (among children)
where
  among : ∀ ds : Revisions, ∀ y ∈ ds.kept, P y
  | .nil, _, hy => nomatch hy
  | .keep child _, _, .head _ => Revision.induct node child
  | .keep _ rest, y, .tail _ hy => among rest y hy
  | .put _ rest, y, hy => among rest y hy

theorem Revisions.before_eq (ds : Revisions) : ds.before = ds.kept.map Revision.before := by
  induction ds using Revisions.induct with
  | nil => rfl
  | keep child rest ih => exact congrArg (child.before :: ·) ih
  | put comment rest ih => exact ih

theorem Revisions.padded (ds : Revisions) : Padded (Revised ds.kept)
    (fun t => ∃ c ∈ ds.comments, t = .node c []) ds.before ds.after := by
  induction ds using Revisions.induct with
  | nil => exact .nil
  | keep child rest ih =>
    refine .keep ⟨child, List.mem_cons_self, rfl, rfl⟩ (ih.imp ?_ fun _ h => h)
    rintro t t' ⟨y, hy, before, after⟩
    exact ⟨y, List.mem_cons_of_mem _ hy, before, after⟩
  | put comment rest ih =>
    refine .put ⟨comment, List.mem_cons_self, rfl⟩ (ih.imp (fun _ _ h => h) ?_)
    rintro t ⟨c, hc, rfl⟩
    exact ⟨c, List.mem_cons_of_mem _ hc, rfl⟩

theorem Revisions.nodes_eq (ds : Revisions) : ds.nodes = ds.kept.flatMap Revision.nodes := by
  induction ds using Revisions.induct with
  | nil => rfl
  | keep child rest ih =>
    rw [Revisions.nodes, Revisions.kept, List.flatMap_cons, ih]
  | put comment rest ih => exact ih

namespace Revision

theorem nodes_eq (x : Revision) : x.nodes = x :: x.children.kept.flatMap Revision.nodes := by
  cases x with
  | node label start stop children => rw [Revision.nodes, Revisions.nodes_eq]; rfl

theorem self_mem_nodes (x : Revision) : x ∈ x.nodes := by
  rw [nodes_eq]; exact List.mem_cons_self

theorem mem_nodes_of_kept {x y z : Revision} (hy : y ∈ x.children.kept) (hz : z ∈ y.nodes) :
    z ∈ x.nodes := by
  rw [nodes_eq]
  exact List.mem_cons_of_mem _ (List.mem_flatMap.2 ⟨y, hy, hz⟩)

theorem mem_nodes_trans {z : Revision} :
    ∀ (x : Revision) {y : Revision}, y ∈ x.nodes → z ∈ y.nodes → z ∈ x.nodes := by
  refine Revision.induct fun x ih y hy hz => ?_
  rw [nodes_eq] at hy
  rcases List.mem_cons.1 hy with rfl | hy
  · exact hz
  · obtain ⟨w, hw, hy⟩ := List.mem_flatMap.1 hy
    exact mem_nodes_of_kept hw (ih w hw hy hz)

/-! ### What a node says of itself -/

variable (x : Revision)

theorem children_before : x.before.children = x.children.before := by cases x; rfl

theorem children_after : x.after.children = x.children.after := by cases x; rfl

@[simp] theorem kind_after : x.after.kind = x.before.kind := by cases x; rfl

@[simp] theorem isNamed_after : x.after.isNamed = x.before.isNamed := by cases x; rfl

@[simp] theorem isSolid_after : x.after.isSolid = x.before.isSolid := by cases x; rfl

@[simp] theorem isPart_after : x.after.isPart = x.before.isPart := by cases x; rfl

@[simp] theorem hasField_after (name : String) : x.after.hasField name = x.before.hasField name := by
  cases x; rfl

@[simp] theorem isOf_after (kinds : List String) :
    Grammar.isOf kinds x.after = Grammar.isOf kinds x.before := by
  simp [Grammar.isOf]

@[simp] theorem construct?_after (g : Grammar) : g.construct? x.after = g.construct? x.before := by
  simp [Grammar.construct?]

@[simp] theorem isRoutine_after (g : Grammar) : g.isRoutine x.after = g.isRoutine x.before :=
  isOf_after x _

end Revision

/-! ### Remarks -/

namespace Pattern

variable {μ : Type}

mutual

/-- The field and the kinds that the nodes of a pattern ask for. -/
def shapes : Pattern μ → List (Option String × List String)
  | .node field kinds _ parts => (field, kinds) :: shapesAmong parts

/-- The field and the kinds that the nodes of some patterns ask for. -/
def shapesAmong : List (Pattern μ) → List (Option String × List String)
  | [] => []
  | p :: ps => shapes p ++ shapesAmong ps

end

end Pattern

namespace Grammar

/-- Whether the measures or the patterns look for a kind among the children of a node. -/
def asksFor (g : Grammar) (kind : String) : Bool :=
  (g.constructs.lookup kind).isSome || g.statementKinds.contains kind || g.labelKinds.contains kind
    || (Pattern.shapesAmong g.routines).any fun (_, kinds) => kinds.contains kind

/-- A node in no field that may stand anywhere and that nothing asks for. -/
def isRemark (g : Grammar) (c : Label) : Bool :=
  c.extra && c.field.isNone && !g.asksFor c.kind

/-- A remark that holds nothing. -/
def Remark (g : Grammar) (t : Tree) : Prop := ∃ c, g.isRemark c = true ∧ t = .node c []

namespace Remark

variable {g : Grammar} {t : Tree}

theorem children (h : g.Remark t) : t.children = [] := by
  obtain ⟨c, _, rfl⟩ := h; rfl

theorem extra (h : g.Remark t) : t.label.extra = true := by
  obtain ⟨c, hc, rfl⟩ := h
  simp only [isRemark, Bool.and_eq_true] at hc
  exact hc.1.1

theorem field (h : g.Remark t) : t.label.field = none := by
  obtain ⟨c, hc, rfl⟩ := h
  simp only [isRemark, Bool.and_eq_true] at hc
  exact Option.isNone_iff_eq_none.1 hc.1.2

theorem unasked (h : g.Remark t) : g.constructs.lookup t.kind = none ∧
    g.statementKinds.contains t.kind = false ∧ g.labelKinds.contains t.kind = false ∧
    ((Pattern.shapesAmong g.routines).any fun (_, kinds) => kinds.contains t.kind) = false := by
  obtain ⟨c, hc, rfl⟩ := h
  simp only [isRemark, Bool.and_eq_true, Bool.not_eq_true', asksFor, Bool.or_eq_false_iff,
    Option.isSome_eq_false_iff, Option.isNone_iff_eq_none] at hc
  obtain ⟨_, ⟨⟨construct, statement⟩, label⟩, pattern⟩ := hc
  exact ⟨construct, statement, label, pattern⟩

theorem isPart (h : g.Remark t) : t.isPart = false := by rw [Tree.isPart, h.extra]; simp

theorem isSolid (h : g.Remark t) : t.isSolid = false := by rw [Tree.isSolid, h.extra]; rfl

theorem hasField (h : g.Remark t) (name : String) : t.hasField name = false := by
  rw [Tree.hasField, h.field]; rfl

theorem construct? (h : g.Remark t) : g.construct? t = none := by
  rw [Grammar.construct?, h.unasked.1, ite_self]

theorem isStatement (h : g.Remark t) : g.isStatement t = false := by
  rw [Grammar.isStatement, isOf, h.unasked.2.1, Bool.and_false]

theorem isLabel (h : g.Remark t) : g.isLabel t = false := by
  rw [Grammar.isLabel, isOf, h.unasked.2.2.1, Bool.and_false]

end Remark

end Grammar

/-! ### Revisions that keep what is measured -/

/-- Only remarks were put in, and only into nodes that hold something already. What holds nothing
    covers source where it did before, and operands have the text that they had. -/
structure Revision.Tame (g : Grammar) (source source' : List UInt8) (r : Revision) : Prop where
  remarks : ∀ x ∈ r.nodes, ∀ c ∈ x.children.comments, g.isRemark c = true
  filled : ∀ x ∈ r.nodes, x.children.kept = [] → x.children.comments = []
  covers : ∀ x ∈ r.nodes, x.before.isLeaf = true → x.after.coversText = x.before.coversText
  operands : ∀ x ∈ r.nodes, g.isOperand x.before = true →
    x.after.bytes source' = x.before.bytes source

namespace Revision.Tame

variable {g : Grammar} {source source' : List UInt8} {x : Revision}

theorem of_mem (tame : x.Tame g source source') {y : Revision} (hy : y ∈ x.nodes) :
    y.Tame g source source' where
  remarks z hz := tame.remarks z (mem_nodes_trans x hy hz)
  filled z hz := tame.filled z (mem_nodes_trans x hy hz)
  covers z hz := tame.covers z (mem_nodes_trans x hy hz)
  operands z hz := tame.operands z (mem_nodes_trans x hy hz)

theorem child (tame : x.Tame g source source') {y : Revision} (hy : y ∈ x.children.kept) :
    y.Tame g source source' :=
  tame.of_mem (mem_nodes_of_kept hy y.self_mem_nodes)

/-- The children afterwards are those before, with remarks between them. -/
theorem padded (tame : x.Tame g source source') :
    Padded (Revised x.children.kept) g.Remark x.before.children x.after.children := by
  rw [children_before, children_after]
  refine x.children.padded.imp (fun _ _ h => h) ?_
  rintro t ⟨c, hc, rfl⟩
  exact ⟨c, tame.remarks x x.self_mem_nodes c hc, rfl⟩

theorem isLeaf (tame : x.Tame g source source') : x.after.isLeaf = x.before.isLeaf := by
  have filled := tame.filled x x.self_mem_nodes
  rw [Tree.isLeaf, Tree.isLeaf, children_before, children_after]
  revert filled
  cases x.children with
  | nil => exact fun _ => rfl
  | keep child rest => exact fun _ => rfl
  | put comment rest =>
    intro filled
    have some : rest.kept ≠ [] := fun none => by cases filled none
    rw [Revisions.before_eq]
    simpa [Revisions.kept, Revisions.after] using some

/-! ### What a node says of its children -/

theorem child? (tame : x.Tame g source source') (name : String) :
    Option.Rel (Revised x.children.kept) (x.before.child? name) (x.after.child? name) := by
  refine tame.padded.find? ?_ fun t ht => ht.hasField name
  rintro t t' ⟨y, _, rfl, rfl⟩
  exact hasField_after y name

theorem parts (tame : x.Tame g source source') :
    List.Forall₂ (Revised x.children.kept) x.before.parts x.after.parts := by
  refine tame.padded.filter ?_ fun t ht => ht.isPart
  rintro t t' ⟨y, _, rfl, rfl⟩
  exact isPart_after y

theorem onlyPart? (tame : x.Tame g source source') :
    Option.Rel (Revised x.children.kept) x.before.onlyPart? x.after.onlyPart? := by
  have parts := tame.parts
  rw [Tree.onlyPart?, Tree.onlyPart?]
  generalize x.before.parts = l, x.after.parts = l' at parts
  match l, l', parts with
  | [], [], .nil => exact .none
  | [_], [_], .cons h .nil => exact .some h
  | _ :: _ :: _, _ :: _ :: _, .cons _ (.cons _ _) => exact .none

theorem hasFieldOf (tame : x.Tame g source source') (table : List (String × String)) :
    Grammar.hasFieldOf table x.after = Grammar.hasFieldOf table x.before := by
  have found : ∀ name, (x.after.child? name).isSome = (x.before.child? name).isSome :=
    fun name => rel_isSome (tame.child? name)
  simp only [Grammar.hasFieldOf, kind_after, found]

theorem isGuarded (tame : x.Tame g source source') : g.isGuarded x.after = g.isGuarded x.before :=
  tame.hasFieldOf _

theorem isAssignment (tame : x.Tame g source source') :
    g.isAssignment x.after = g.isAssignment x.before := by
  rw [Grammar.isAssignment, Grammar.isAssignment, isOf_after, isNamed_after, tame.hasFieldOf]

theorem logicalOperator? (tame : x.Tame g source source') :
    g.logicalOperator? x.after = g.logicalOperator? x.before := by
  have operator := tame.child? "operator"
  rw [Grammar.logicalOperator?, Grammar.logicalOperator?, kind_after]
  generalize x.before.child? "operator" = o, x.after.child? "operator" = o' at operator
  cases operator with
  | none => rfl
  | some h =>
    obtain ⟨y, _, rfl, rfl⟩ := h
    simp only [Option.bind_eq_bind, Option.bind_some, kind_after]

end Revision.Tame

end CodeMetrics
