import Mathlib.Data.List.Flatten
import Mathlib.Data.List.Nodup
import CodeMetrics.Syntax.Site

/-! The sites of a tree: a child of a site is a site, and no two sites have the same way. -/

namespace CodeMetrics

namespace Tree

/-- What holds of a node whenever it holds of its children holds of every node. -/
theorem induct {P : Tree → Prop} (node : ∀ label children, (∀ c ∈ children, P c) →
    P (.node label children)) : ∀ t, P t
  | .node label children => node label children fun c hc => among children c hc
where
  among : ∀ children : List Tree, ∀ c ∈ children, P c
  | [], _, hc => nomatch hc
  | c :: _, _, .head _ => induct node c
  | _ :: rest, d, .tail _ hd => among rest d hd

@[simp] theorem children_node (label : Label) (children : List Tree) :
    (Tree.node label children).children = children := rfl

theorem walkAmong_eq (enters : Tree → Tree → Bool) (t : Tree) (cs : List Tree) :
    walkAmong enters t cs = cs.flatMap fun c => if enters t c then c.walk enters else [] := by
  induction cs with
  | nil => rw [walkAmong, List.flatMap_nil]
  | cons c rest ih => rw [walkAmong, ih, List.flatMap_cons]

theorem walk_eq (enters : Tree → Tree → Bool) (t : Tree) :
    t.walk enters = t :: t.children.flatMap fun c => if enters t c then c.walk enters else [] := by
  cases t with
  | node label children => rw [walk, walkAmong_eq]; rfl

/-! ### Nodes -/

theorem nodes_eq (t : Tree) : t.nodes = t :: t.children.flatMap nodes := walk_eq _ t

theorem self_mem_nodes (t : Tree) : t ∈ t.nodes := by
  rw [nodes_eq]; exact List.mem_cons_self

theorem mem_nodes_of_child {t c u : Tree} (hc : c ∈ t.children) (hu : u ∈ c.nodes) :
    u ∈ t.nodes := by
  rw [nodes_eq]
  exact List.mem_cons_of_mem _ (List.mem_flatMap.2 ⟨c, hc, hu⟩)

/-- What holds of a node, and of the children of each node that it holds of, holds of every node. -/
theorem nodes_induct {P : Tree → Prop} {root : Tree} (top : P root)
    (down : ∀ t ∈ root.nodes, P t → ∀ c ∈ t.children, P c) : ∀ t ∈ root.nodes, P t := by
  induction root using induct with
  | node label children ih =>
    intro t ht
    rw [nodes_eq] at ht
    rcases List.mem_cons.1 ht with rfl | ht
    · exact top
    · obtain ⟨c, hc, ht⟩ := List.mem_flatMap.1 ht
      have first : P c := down _ (self_mem_nodes _) top c hc
      exact ih c hc first (fun u hu => down u (mem_nodes_of_child hc hu)) t ht

/-- A walk comes to nodes of the tree, in their order. -/
theorem walk_sublist_nodes (enters : Tree → Tree → Bool) (t : Tree) :
    (t.walk enters).Sublist t.nodes := by
  induction t using induct with
  | node label children ih =>
    rw [walk_eq, nodes_eq]
    refine List.Sublist.cons_cons _ (List.Sublist.flatMap_right _ fun c hc => ?_)
    split
    · exact ih c hc
    · exact List.nil_sublist _

/-- A named node at its place in the source, maybe in a field. -/
def partAt (kind : String) (field : Option String) (start stop : Nat) (children : List Tree) :
    Tree :=
  .node { kind, field, start, stop } children

/-- A word or sign at its place in the source. -/
def wordAt (kind : String) (start stop : Nat) : Tree :=
  .node { kind, named := false, start, stop } []

/-- A named node wherever it stands, maybe in a field. -/
def part (kind : String) (field : Option String) (children : List Tree) : Tree :=
  partAt kind field 0 0 children

/-- A word or sign wherever it stands. -/
def word (kind : String) : Tree := wordAt kind 0 0

/-! ### Sites below sites -/

theorem sitesFrom_eq (above : List Tree) (way : List Nat) (t : Tree) :
    t.sitesFrom above way = ⟨t, above, way⟩ :: sitesAmong (t :: above) way 0 t.children := by
  cases t; rfl

theorem sitesAmong_eq (above : List Tree) (way : List Nat) (cs : List Tree) (index : Nat) :
    sitesAmong above way index cs
      = (cs.zipIdx index).flatMap fun (c, i) => c.sitesFrom above (i :: way) := by
  induction cs generalizing index with
  | nil => rw [sitesAmong]; rfl
  | cons c rest ih => rw [sitesAmong, ih, List.zipIdx_cons, List.flatMap_cons]

/-- The nodes at the sites of a tree are its nodes. -/
theorem map_tree_sitesFrom (t : Tree) : ∀ (above : List Tree) (way : List Nat),
    (t.sitesFrom above way).map (·.tree) = t.nodes := by
  induction t using induct with
  | node label children ih =>
    intro above way
    have among : ∀ (cs : List Tree) (index : Nat), (∀ c ∈ cs, c ∈ children) →
        (sitesAmong (.node label children :: above) way index cs).map (·.tree)
          = cs.flatMap nodes := by
      intro cs
      induction cs with
      | nil => intro index _; rfl
      | cons c rest ihrest =>
        intro index sub
        rw [sitesAmong, List.map_append, ih c (sub c List.mem_cons_self),
          ihrest _ fun d hd => sub d (List.mem_cons_of_mem _ hd), List.flatMap_cons]
    rw [sitesFrom_eq, nodes_eq, List.map_cons, children_node, among children 0 fun _ hc => hc]

theorem map_tree_sites (root : Tree) : root.sites.map (·.tree) = root.nodes :=
  map_tree_sitesFrom root [] []

/-- The sites from a site are itself and the sites from its children. -/
theorem sitesFrom_site (s : Site) : s.tree.sitesFrom s.above s.way
    = s :: s.children.flatMap fun u => u.tree.sitesFrom u.above u.way := by
  rw [sitesFrom_eq, sitesAmong_eq, Site.children, List.flatMap_map]
  rfl

theorem self_mem_sitesFrom (above : List Tree) (way : List Nat) (t : Tree) :
    ⟨t, above, way⟩ ∈ t.sitesFrom above way := by
  rw [sitesFrom_eq]; exact List.mem_cons_self

/-- The sites among some children are those from one of them. -/
theorem mem_sitesAmong {above : List Tree} {way : List Nat} {s : Site} :
    ∀ {children : List Tree} {index : Nat}, s ∈ sitesAmong above way index children ↔
      ∃ (i : Nat) (c : Tree), children[i]? = some c ∧ s ∈ c.sitesFrom above ((index + i) :: way)
  | [], index => by simp [sitesAmong]
  | c :: rest, index => by
    rw [sitesAmong, List.mem_append, mem_sitesAmong]
    constructor
    · rintro (h | ⟨i, d, hd, h⟩)
      · exact ⟨0, c, rfl, h⟩
      · exact ⟨i + 1, d, hd, by rwa [Nat.add_right_comm] at h⟩
    · rintro ⟨i, d, hd, h⟩
      cases i with
      | zero => cases hd; exact Or.inl h
      | succ i => exact Or.inr ⟨i, d, hd, by rwa [Nat.add_right_comm]⟩

/-- The sites below a site are among those of the tree it stands in. -/
theorem sitesFrom_subset {t : Tree} : ∀ {above : List Tree} {way : List Nat} {s : Site},
    s ∈ t.sitesFrom above way → ∀ {u : Site}, u ∈ s.tree.sitesFrom s.above s.way →
      u ∈ t.sitesFrom above way := by
  induction t using induct with
  | node label children ih =>
    intro above way s hs u hu
    rw [sitesFrom_eq] at hs
    rcases List.mem_cons.1 hs with rfl | hs
    · exact hu
    · obtain ⟨i, c, hc, hs⟩ := mem_sitesAmong.1 hs
      rw [sitesFrom_eq]
      refine List.mem_cons_of_mem _ (mem_sitesAmong.2 ⟨i, c, hc, ?_⟩)
      exact ih c (List.mem_of_getElem? hc) hs hu

/-- The child of a site is a site. -/
theorem mem_sites_of_child {root : Tree} {s : Site} (hs : s ∈ root.sites) {i : Nat} {c : Tree}
    (hc : s.tree.children[i]? = some c) : s.down i c ∈ root.sites := by
  refine sitesFrom_subset hs ?_
  rw [sitesFrom_eq]
  refine List.mem_cons_of_mem _ (mem_sitesAmong.2 ⟨i, c, hc, ?_⟩)
  rw [Nat.zero_add]
  exact self_mem_sitesFrom _ _ _

theorem exists_site_of_child {root : Tree} {s : Site} (hs : s ∈ root.sites) {c : Tree}
    (hc : c ∈ s.tree.children) : ∃ i, s.down i c ∈ root.sites := by
  obtain ⟨i, hi⟩ := List.mem_iff_getElem?.1 hc
  exact ⟨i, mem_sites_of_child hs hi⟩

theorem mem_sites_of_mem_children {root : Tree} {s : Site} (hs : s ∈ root.sites) {u : Site}
    (hu : u ∈ s.children) : u ∈ root.sites := by
  obtain ⟨⟨c, i⟩, hci, rfl⟩ := List.mem_map.1 hu
  exact mem_sites_of_child hs (List.mk_mem_zipIdx_iff_getElem?.1 hci)

/-- What holds of the outermost node, and of the children of each node that it holds of, holds of
    every site. -/
theorem sites_induct {root : Tree} {P : Site → Prop} (top : P ⟨root, [], []⟩)
    (down : ∀ s ∈ root.sites, P s → ∀ index c, s.tree.children[index]? = some c →
      P (s.down index c)) : ∀ s ∈ root.sites, P s := by
  have below : ∀ t : Tree, ∀ u ∈ root.sites, u.tree = t → P u →
      ∀ s ∈ t.sitesFrom u.above u.way, P s := by
    intro t
    induction t using induct with
    | node label children ih =>
      intro u hu tree holds s hs
      rw [sitesFrom_eq, ← tree] at hs
      rcases List.mem_cons.1 hs with rfl | hs
      · exact holds
      · obtain ⟨i, c, hc, hs⟩ := mem_sitesAmong.1 hs
        rw [Nat.zero_add] at hs
        have mem : c ∈ children := by
          have := List.mem_of_getElem? hc
          rwa [tree] at this
        exact ih c mem (u.down i c) (mem_sites_of_child hu hc) rfl (down u hu holds i c hc) s hs
  exact below root ⟨root, [], []⟩ (self_mem_sitesFrom _ _ _) rfl top

/-! ### Ways -/

/-- The way to a site goes on from the way to where it was looked for. -/
theorem way_suffix {t : Tree} : ∀ {above : List Tree} {way : List Nat} {s : Site},
    s ∈ t.sitesFrom above way → way <:+ s.way := by
  induction t using induct with
  | node label children ih =>
    intro above way s hs
    rw [sitesFrom_eq] at hs
    rcases List.mem_cons.1 hs with rfl | hs
    · exact List.suffix_rfl
    · obtain ⟨i, c, hc, hs⟩ := mem_sitesAmong.1 hs
      exact (List.suffix_cons _ _).trans (ih c (List.mem_of_getElem? hc) hs)

/-- The nodes around where a site was looked for are around it. -/
theorem above_suffix {t : Tree} : ∀ {above : List Tree} {way : List Nat} {s : Site},
    s ∈ t.sitesFrom above way → above <:+ s.above := by
  induction t using induct with
  | node label children ih =>
    intro above way s hs
    rw [sitesFrom_eq] at hs
    rcases List.mem_cons.1 hs with rfl | hs
    · exact List.suffix_rfl
    · obtain ⟨i, c, hc, hs⟩ := mem_sitesAmong.1 hs
      exact (List.suffix_cons _ _).trans (ih c (List.mem_of_getElem? hc) hs)

/-- More around a tree is more around each of its sites. -/
theorem mem_sitesFrom_append {t : Tree} (around : List Tree) (wayThere : List Nat) :
    ∀ {above : List Tree} {way : List Nat} {s : Site}, s ∈ t.sitesFrom above way →
      ⟨s.tree, s.above ++ around, s.way ++ wayThere⟩
        ∈ t.sitesFrom (above ++ around) (way ++ wayThere) := by
  induction t using induct with
  | node label children ih =>
    intro above way s hs
    rw [sitesFrom_eq] at hs ⊢
    rcases List.mem_cons.1 hs with rfl | hs
    · exact List.mem_cons_self
    · obtain ⟨i, c, hc, hs⟩ := mem_sitesAmong.1 hs
      exact List.mem_cons_of_mem _
        (mem_sitesAmong.2 ⟨i, c, hc, ih c (List.mem_of_getElem? hc) hs⟩)

/-- A site of the tree at a site is a site of the tree around it. -/
theorem mem_sites_append {root : Tree} {s : Site} (hs : s ∈ root.sites) {u : Site}
    (hu : u ∈ s.tree.sites) : ⟨u.tree, u.above ++ s.above, u.way ++ s.way⟩ ∈ root.sites :=
  sitesFrom_subset hs (mem_sitesFrom_append s.above s.way hu)

theorem ways_nodup_from (t : Tree) : ∀ (above : List Tree) (way : List Nat),
    ((t.sitesFrom above way).map (·.way)).Nodup := by
  induction t using induct with
  | node label children ih =>
    intro above way
    have among : ∀ (cs : List Tree) (index : Nat), (∀ c ∈ cs, c ∈ children) →
        ((sitesAmong (.node label children :: above) way index cs).map (·.way)).Nodup := by
      intro cs
      induction cs with
      | nil => intro index _; exact List.nodup_nil
      | cons c rest ihrest =>
        intro index sub
        rw [sitesAmong, List.map_append, List.nodup_append]
        refine ⟨ih c (sub c List.mem_cons_self) _ _,
          ihrest _ fun d hd => sub d (List.mem_cons_of_mem _ hd), ?_⟩
        -- the two ways part at this node
        rintro _ hx _ hy rfl
        obtain ⟨s, hs, hsw⟩ := List.mem_map.1 hx
        obtain ⟨u, hu, huw⟩ := List.mem_map.1 hy
        obtain ⟨i, d, _, hu⟩ := mem_sitesAmong.1 hu
        have h₁ := way_suffix hs
        have h₂ := way_suffix hu
        rw [hsw] at h₁
        rw [huw] at h₂
        have := (List.suffix_of_suffix_length_le h₁ h₂ (by simp)).eq_of_length (by simp)
        have := (List.cons.inj this).1
        omega
    rw [sitesFrom_eq, List.map_cons, List.nodup_cons]
    refine ⟨fun h => ?_, among children 0 fun _ hc => hc⟩
    obtain ⟨s, hs, hsw⟩ := List.mem_map.1 h
    obtain ⟨i, c, _, hs⟩ := mem_sitesAmong.1 hs
    have longer := (way_suffix hs).length_le
    have hsw : s.way = way := hsw
    rw [hsw, List.length_cons] at longer
    omega

/-- No two sites have the same way. -/
theorem ways_nodup (root : Tree) : (root.sites.map (·.way)).Nodup := ways_nodup_from root [] []

theorem eq_of_way {root : Tree} {s u : Site} (hs : s ∈ root.sites) (hu : u ∈ root.sites)
    (e : s.way = u.way) : s = u :=
  List.inj_on_of_nodup_map (ways_nodup root) hs hu e

end Tree

/-! ### Sites and their children -/

namespace Site

variable {s u v : Site}

theorem map_tree_children (s : Site) : s.children.map (·.tree) = s.tree.children := by
  rw [Site.children, List.map_map]
  exact List.zipIdx_map_fst 0 s.tree.children

theorem above_of_mem_children (hu : u ∈ s.children) : u.above = s.tree :: s.above := by
  obtain ⟨⟨c, i⟩, -, rfl⟩ := List.mem_map.1 hu
  rfl

/-- What is around a site is around all that is at or below it. -/
theorem around_suffix (hv : v ∈ s.tree.sitesFrom s.above s.way) :
    (s.tree :: s.above) <:+ (v.tree :: v.above) := by
  rw [Tree.sitesFrom_eq] at hv
  rcases List.mem_cons.1 hv with rfl | hv
  · exact List.suffix_rfl
  · obtain ⟨i, c, -, hv⟩ := Tree.mem_sitesAmong.1 hv
    exact (Tree.above_suffix hv).trans (List.suffix_cons _ _)

end Site

end CodeMetrics
