import CodeMetrics.Proofs.Revision

/-! Sites that face each other: the site of a node before comments were put in, and after. The two
    ways to a node determine each other, so different nodes stay different. -/

namespace CodeMetrics

/-- A child that is at one place among the children before and at another one after. -/
inductive Revisions.At : Revisions → Nat → Nat → Revision → Prop
  | here {child : Revision} {rest : Revisions} : At (.keep child rest) 0 0 child
  | keep {child y : Revision} {rest : Revisions} {i j : Nat} :
      At rest i j y → At (.keep child rest) (i + 1) (j + 1) y
  | put {comment : Label} {y : Revision} {rest : Revisions} {i j : Nat} :
      At rest i j y → At (.put comment rest) i (j + 1) y

namespace Revisions.At

variable {ds : Revisions} {i j : Nat} {y : Revision}

theorem mem_kept (h : ds.At i j y) : y ∈ ds.kept := by
  induction h with
  | here => exact List.mem_cons_self
  | keep _ ih => exact List.mem_cons_of_mem _ ih
  | put _ ih => exact ih

theorem unique (h : ds.At i j y) : ∀ {k : Nat} {z : Revision}, ds.At i k z → j = k ∧ y = z := by
  induction h with
  | here =>
    rintro k z ⟨⟩
    exact ⟨rfl, rfl⟩
  | keep _ ih =>
    rintro k z (_ | h | _)
    obtain ⟨rfl, rfl⟩ := ih h
    exact ⟨rfl, rfl⟩
  | put _ ih =>
    rintro k z (_ | _ | h)
    obtain ⟨rfl, rfl⟩ := ih h
    exact ⟨rfl, rfl⟩

theorem unique' (h : ds.At i j y) : ∀ {k : Nat} {z : Revision}, ds.At k j z → i = k ∧ y = z := by
  induction h with
  | here =>
    rintro k z ⟨⟩
    exact ⟨rfl, rfl⟩
  | keep _ ih =>
    rintro k z (_ | h | _)
    obtain ⟨rfl, rfl⟩ := ih h
    exact ⟨rfl, rfl⟩
  | put _ ih =>
    rintro k z (_ | _ | h)
    obtain ⟨rfl, rfl⟩ := ih h
    exact ⟨rfl, rfl⟩

end Revisions.At

namespace Revision

/-- Ways to the same node, one in the tree before and one in the tree after. -/
inductive Leads (root : Revision) : List Nat → List Nat → Revision → Prop
  | here : Leads root [] [] root
  | down {way way' : List Nat} {x y : Revision} {i j : Nat} :
      Leads root way way' x → x.children.At i j y → Leads root (i :: way) (j :: way') y

namespace Leads

variable {root x : Revision} {way way' : List Nat}

theorem mem_nodes (h : Leads root way way' x) : x ∈ root.nodes := by
  induction h with
  | here => exact root.self_mem_nodes
  | down _ child ih =>
    exact mem_nodes_trans root ih (mem_nodes_of_kept child.mem_kept (self_mem_nodes _))

theorem unique (h : Leads root way way' x) :
    ∀ {other : List Nat} {y : Revision}, Leads root way other y → way' = other ∧ x = y := by
  induction h with
  | here =>
    rintro other y ⟨⟩
    exact ⟨rfl, rfl⟩
  | down _ child ih =>
    rintro other y (_ | ⟨h, child'⟩)
    obtain ⟨rfl, rfl⟩ := ih h
    obtain ⟨rfl, rfl⟩ := child.unique child'
    exact ⟨rfl, rfl⟩

theorem unique' (h : Leads root way way' x) :
    ∀ {other : List Nat} {y : Revision}, Leads root other way' y → way = other ∧ x = y := by
  induction h with
  | here =>
    rintro other y ⟨⟩
    exact ⟨rfl, rfl⟩
  | down _ child ih =>
    rintro other y (_ | ⟨h, child'⟩)
    obtain ⟨rfl, rfl⟩ := ih h
    obtain ⟨rfl, rfl⟩ := child.unique' child'
    exact ⟨rfl, rfl⟩

end Leads

/-- The sites of a node before and after. -/
structure Faces (root x : Revision) (s s' : Site) : Prop where
  leads : root.Leads s.way s'.way x
  before : s.tree = x.before
  after : s'.tree = x.after
  above : List.Forall₂ (Revised root.nodes) s.above s'.above

/-- Two sites, one in each tree, of the same node. -/
def Facing (root : Revision) (s s' : Site) : Prop := ∃ x, root.Faces x s s'

/-- Sites are different before where they are different after. -/
theorem Facing.way_iff {root : Revision} {s s' u u' : Site} (h : root.Facing s s')
    (h' : root.Facing u u') : s.way = u.way ↔ s'.way = u'.way := by
  obtain ⟨x, hx⟩ := h
  obtain ⟨y, hy⟩ := h'
  have leads := hx.leads
  constructor
  · intro same
    rw [same] at leads
    exact (leads.unique hy.leads).1
  · intro same
    rw [same] at leads
    exact (leads.unique' hy.leads).1

/-! ### Children and sites -/

variable {g : Grammar} {source source' : List UInt8} {root x : Revision} {s s' : Site}

theorem Faces.down {y : Revision} {i j : Nat} (faces : root.Faces x s s')
    (child : x.children.At i j y) : root.Faces y (s.down i y.before) (s'.down j y.after) where
  leads := faces.leads.down child
  before := rfl
  after := rfl
  above := .cons ⟨x, faces.leads.mem_nodes, faces.before, faces.after⟩ faces.above

/-- The children of two sites of a node face each other, apart from remarks. -/
theorem Faces.children (tame : root.Tame g source source') (faces : root.Faces x s s') :
    Padded (fun u u' => ∃ y ∈ x.children.kept, root.Faces y u u') (fun u => g.Remark u.tree)
      s.children s'.children := by
  have remarks := tame.remarks x faces.leads.mem_nodes
  have among : ∀ (ds : Revisions) (k k' : Nat), (∀ c ∈ ds.comments, g.isRemark c = true) →
      (∀ i j y, ds.At i j y → x.children.At (k + i) (k' + j) y) →
      Padded (fun u u' => ∃ y ∈ x.children.kept, root.Faces y u u') (fun u => g.Remark u.tree)
        ((ds.before.zipIdx k).map fun p => s.down p.2 p.1)
        ((ds.after.zipIdx k').map fun p => s'.down p.2 p.1) := by
    intro ds
    induction ds using Revisions.induct with
    | nil => intro k k' _ _; exact .nil
    | keep child rest ih =>
      intro k k' comments place
      have here := place 0 0 child .here
      refine .keep ⟨child, here.mem_kept, faces.down here⟩ (ih (k + 1) (k' + 1) comments ?_)
      intro i j y h
      have := place _ _ y (.keep h)
      rwa [Nat.add_right_comm, Nat.add_right_comm k']
    | put comment rest ih =>
      intro k k' comments place
      obtain ⟨remark, comments⟩ := List.forall_mem_cons.1 comments
      refine .put ⟨comment, remark, rfl⟩ (ih k (k' + 1) comments ?_)
      intro i j y h
      have := place _ _ y (.put h)
      rwa [Nat.add_right_comm k']
  have all := among x.children 0 0 remarks fun i j y h => by rwa [Nat.zero_add, Nat.zero_add]
  rwa [← children_before, ← children_after, ← faces.before, ← faces.after] at all

/-- The sites below two sites of a node face each other, apart from remarks. -/
theorem sites_facing (tame : root.Tame g source source') :
    ∀ (x : Revision) {s s' : Site}, root.Faces x s s' →
      Padded root.Facing (fun u => g.Remark u.tree) (s.tree.sitesFrom s.above s.way)
        (s'.tree.sitesFrom s'.above s'.way) := by
  refine Revision.induct fun x ih s s' faces => ?_
  rw [Tree.sitesFrom_site, Tree.sitesFrom_site]
  refine .keep ⟨x, faces⟩ ((faces.children tame).flatMap ?_ ?_)
  · rintro u u' ⟨y, hy, faces'⟩
    exact ih y hy faces'
  · intro u hu
    rw [Tree.sitesFrom_site, Site.children, hu.children]
    exact .put hu .nil

theorem all_sites_facing (tame : root.Tame g source source') :
    Padded root.Facing (fun u => g.Remark u.tree) root.before.sites root.after.sites := by
  have faces : root.Faces root ⟨root.before, [], []⟩ ⟨root.after, [], []⟩ :=
    ⟨.here, rfl, rfl, .nil⟩
  exact sites_facing tame root faces

end Revision

end CodeMetrics
