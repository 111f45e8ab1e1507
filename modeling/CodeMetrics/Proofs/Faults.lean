import CodeMetrics.Measure.Parsed
import CodeMetrics.Proofs.Sites

/-! The search for syntax errors finds every topmost fault.

    The search passes over nodes that do not tell of an error, and it does not look into a fault. It
    loses nothing by that where every topmost fault shows in the nodes around it. The search can run
    as a loop over a stack, on which the children of a node take its place; what is found so far and
    what is still to be found below the stack do not change together. -/

namespace CodeMetrics

open SyntaxFault (isFault searches)

/-- A fault with no fault around it. -/
def Site.isTopFault (s : Site) : Bool := isFault s.tree && !s.above.any isFault

theorem Site.isTopFault_iff {s : Site} :
    s.isTopFault = true ↔ isFault s.tree = true ∧ ∀ t ∈ s.above, isFault t = false := by
  simp [isTopFault]

namespace Tree

/-- Every topmost fault shows: it tells of an error, and so does every node around it. -/
def ShowsFaults (root : Tree) : Prop :=
  ∀ s ∈ root.sites, s.isTopFault = true →
    s.tree.label.hasError = true ∧ ∀ t ∈ s.above, t.label.hasError = true

instance (root : Tree) : Decidable root.ShowsFaults :=
  inferInstanceAs (Decidable (∀ s ∈ root.sites, _))

/-! ### The pruned walk -/

/-- What is below a node has the node above it. -/
theorem mem_above_of_mem_sitesAmong {t : Tree} {above : List Tree} {way : List Nat} {index : Nat}
    {children : List Tree} {s : Site} (h : s ∈ sitesAmong (t :: above) way index children) :
    t ∈ s.above := by
  obtain ⟨i, c, -, hs⟩ := mem_sitesAmong.1 h
  exact (above_suffix hs).subset List.mem_cons_self

/-- The topmost faults among some sites show in the nodes around them. -/
def ShowAround (sites : List Site) : Prop :=
  ∀ s ∈ sites, s.isTopFault = true → ∀ u ∈ s.above, u.label.hasError = true

/-- What the pruned walk from a node is to find. -/
def FindsTop (t : Tree) : Prop :=
  ∀ (above : List Tree) (way : List Nat), (∀ u ∈ above, isFault u = false) →
    ShowAround (t.sitesFrom above way) →
    (t.walk searches).filter isFault
      = ((t.sitesFrom above way).filter (·.isTopFault)).map (·.tree)

section Below

variable {t : Tree} {above : List Tree} {way : List Nat} {index : Nat} {cs : List Tree}

/-- No fault below another one is topmost. -/
theorem filter_below_fault (fault : isFault t = true) :
    (sitesAmong (t :: above) way index cs).filter (·.isTopFault) = [] := by
  refine List.filter_eq_nil_iff.2 fun s hs hit => ?_
  have clear := (Site.isTopFault_iff.1 hit).2 t (mem_above_of_mem_sitesAmong hs)
  rw [fault] at clear
  cases clear

/-- A topmost fault would show in the node around it. -/
theorem filter_below_quiet (quiet : ¬ t.label.hasError = true)
    (shows : ShowAround (sitesAmong (t :: above) way index cs)) :
    (sitesAmong (t :: above) way index cs).filter (·.isTopFault) = [] := by
  refine List.filter_eq_nil_iff.2 fun s hs hit => quiet ?_
  exact shows s hs hit t (mem_above_of_mem_sitesAmong hs)

/-- The walks from some children find what is among them. -/
theorem filter_walk_among (finds : ∀ c ∈ cs, c.FindsTop)
    (clear : ∀ u ∈ t :: above, isFault u = false)
    (shows : ShowAround (sitesAmong (t :: above) way index cs)) :
    (cs.flatMap fun c => c.walk searches).filter isFault
      = ((sitesAmong (t :: above) way index cs).filter (·.isTopFault)).map (·.tree) := by
  induction cs generalizing index with
  | nil => rfl
  | cons c rest ih =>
    rw [sitesAmong] at shows ⊢
    have here := finds c List.mem_cons_self _ _ clear fun s hs => shows s (List.mem_append_left _ hs)
    have later := ih (fun d hd => finds d (List.mem_cons_of_mem _ hd))
      fun s hs => shows s (List.mem_append_right _ hs)
    rw [List.flatMap_cons, List.filter_append, List.filter_append, List.map_append, here, later]

end Below

/-- The walk that passes over nodes without an error, and over what is below a fault, comes to the
    topmost faults, in their order. -/
theorem findsTop (t : Tree) : t.FindsTop := by
  induction t using induct with
  | node label children ih =>
    intro above way clear shows
    rw [sitesFrom_eq, children_node] at shows ⊢
    have shows' := fun s hs => shows s (List.mem_cons_of_mem _ hs)
    rw [walk_eq, children_node, List.filter_cons, List.filter_cons]
    by_cases fault : isFault (.node label children) = true
    · have top : Site.isTopFault ⟨.node label children, above, way⟩ = true :=
        Site.isTopFault_iff.2 ⟨fault, clear⟩
      simp [fault, top, filter_below_fault fault, searches]
    · have plain : Site.isTopFault ⟨.node label children, above, way⟩ = false := by
        simp [Site.isTopFault, fault]
      have clear' : ∀ u ∈ .node label children :: above, isFault u = false := by
        simpa [fault] using clear
      rw [if_neg fault, plain, if_neg Bool.false_ne_true]
      by_cases tells : (Tree.node label children).label.hasError = true
      · have entered : ∀ c, searches (.node label children) c = true := by
          simp [searches, tells, fault]
        simp only [entered, if_true]
        exact filter_walk_among ih clear' shows'
      · rw [filter_below_quiet tells shows']
        simp [searches, tells]

/-- A site is the outermost node or below it. -/
theorem root_of_mem_sites {root : Tree} : ∀ s ∈ root.sites, s.tree = root ∨ root ∈ s.above := by
  refine sites_induct (Or.inl rfl) fun s _ ih index c _ => Or.inr ?_
  rcases ih with here | above
  · exact here ▸ List.mem_cons_self
  · exact List.mem_cons_of_mem _ above

/-- The faults that the search finds are the topmost ones, in their order. -/
theorem nodesIn_eq {root : Tree} (shows : root.ShowsFaults) :
    SyntaxFault.nodesIn root = (root.sites.filter (·.isTopFault)).map (·.tree) := by
  rw [SyntaxFault.nodesIn]
  split
  · exact findsTop root [] [] (List.forall_mem_nil _) fun s hs hit => (shows s hs hit).2
  · next quiet =>
    have empty : root.sites.filter (·.isTopFault) = [] := by
      refine List.filter_eq_nil_iff.2 fun s hs hit => quiet ?_
      obtain ⟨here, above⟩ := shows s hs hit
      rcases root_of_mem_sites s hs with same | around
      · exact same ▸ here
      · exact above root around
    rw [empty, List.map_nil]

/-- Where there is a fault there is a topmost one. -/
theorem exists_topFault {root : Tree} : ∀ s ∈ root.sites,
    (isFault s.tree = true ∨ ∃ t ∈ s.above, isFault t = true) →
      ∃ u ∈ root.sites, u.isTopFault = true := by
  refine sites_induct ?_ fun s hs ih index c hc => ?_
  · rintro (fault | ⟨t, ht, -⟩)
    · exact ⟨_, self_mem_sitesFrom _ _ _, Site.isTopFault_iff.2 ⟨fault, List.forall_mem_nil _⟩⟩
    · cases ht
  · by_cases around : isFault s.tree = true ∨ ∃ t ∈ s.above, isFault t = true
    · exact fun _ => ih around
    · rintro (fault | ⟨t, ht, fault⟩)
      · refine ⟨_, mem_sites_of_child hs hc, Site.isTopFault_iff.2 ⟨fault, fun t ht => ?_⟩⟩
        rw [← Bool.not_eq_true]
        intro fault'
        rcases List.mem_cons.1 ht with rfl | ht
        · exact around (Or.inl fault')
        · exact around (Or.inr ⟨t, ht, fault'⟩)
      · refine absurd ?_ around
        rcases List.mem_cons.1 ht with rfl | ht
        · exact Or.inl fault
        · exact Or.inr ⟨t, ht, fault⟩

/-! ### Nodes in the order of the source -/

/-- Nodes run forward and hold their children, and children follow each other. -/
structure InSourceOrder (root : Tree) : Prop where
  forward : ∀ t ∈ root.nodes, t.label.start ≤ t.label.stop
  holds : ∀ t ∈ root.nodes, ∀ c ∈ t.children,
    t.label.start ≤ c.label.start ∧ c.label.stop ≤ t.label.stop
  follow : ∀ t ∈ root.nodes, t.children.Pairwise fun a b => a.label.stop ≤ b.label.start

namespace InSourceOrder

variable {root : Tree} (order : root.InSourceOrder)

include order

theorem child {c : Tree} (hc : c ∈ root.children) : c.InSourceOrder where
  forward t ht := order.forward t (mem_nodes_of_child hc ht)
  holds t ht := order.holds t (mem_nodes_of_child hc ht)
  follow t ht := order.follow t (mem_nodes_of_child hc ht)

theorem within : ∀ t ∈ root.nodes,
    root.label.start ≤ t.label.start ∧ t.label.stop ≤ root.label.stop := by
  refine nodes_induct ⟨Nat.le_refl _, Nat.le_refl _⟩ fun t ht ih c hc => ?_
  have held := order.holds t ht c hc
  omega

/-- The nodes of a tree start one after the other. -/
theorem starts : root.nodes.Pairwise fun a b => a.label.start ≤ b.label.start := by
  induction root using induct with
  | node label children ih =>
    rw [nodes_eq, List.pairwise_cons]
    refine ⟨fun t ht => ?_, List.pairwise_flatMap.2 ⟨fun c hc => ih c hc (order.child hc), ?_⟩⟩
    · refine (order.within t ?_).1
      rw [nodes_eq]
      exact List.mem_cons_of_mem _ ht
    · refine (order.follow _ (self_mem_nodes _)).imp_of_mem fun {a b} ha hb follow x hx y hy => ?_
      have first := (order.child ha).within x hx
      have second := (order.child hb).within y hy
      have run := (order.child ha).forward x hx
      omega

end InSourceOrder

end Tree

/-! ### The search as a loop -/

namespace SyntaxFault

/-- A search with the nodes that it still has to look at, the next one first, and what it found. -/
structure Search where
  stack : List Tree
  found : List SyntaxFault

namespace Search

variable {source : List UInt8}

/-- One turn of the search. A fault is noted; a node that tells of an error gives its place to its
    children; any other node is passed over. -/
def step (source : List UInt8) (s : Search) : Option Search :=
  match s.stack with
  | [] => none
  | t :: rest =>
    let place := Position.of source t.label.start
    let note (message : String) : Search :=
      ⟨rest, s.found ++ [⟨t.label.start, place.row + 1, place.column + 1, message⟩]⟩
    if t.label.error then some (note "unexpected syntax")
    else if t.label.missing then some (note ("missing \x60" ++ t.kind ++ "\x60"))
    else if t.label.hasError then some ⟨t.children ++ rest, s.found⟩
    else some ⟨rest, s.found⟩

/-- What one turn of the search does. -/
theorem step_cases {s next : Search} (h : s.step source = some next) :
    ∃ t rest, s.stack = t :: rest ∧
      (isFault t = true ∧ next = ⟨rest, s.found ++ [of source t]⟩ ∨
        isFault t = false ∧ t.label.hasError = true ∧ next = ⟨t.children ++ rest, s.found⟩ ∨
        isFault t = false ∧ t.label.hasError = false ∧ next = ⟨rest, s.found⟩) := by
  rw [step] at h
  split at h
  · cases h
  · next t rest stack =>
    refine ⟨t, rest, stack, ?_⟩
    by_cases error : t.label.error = true
    · rw [if_pos error] at h
      cases h
      exact Or.inl ⟨by simp [isFault, error], by simp [of, describe, error]⟩
    · rw [if_neg error] at h
      by_cases missing : t.label.missing = true
      · rw [if_pos missing] at h
        cases h
        exact Or.inl ⟨by simp [isFault, missing], by simp [of, describe, error]⟩
      · have sound : isFault t = false := by simp [isFault, error, missing]
        rw [if_neg missing] at h
        split at h
        · next tells => cases h; exact Or.inr (Or.inl ⟨sound, tells, rfl⟩)
        · next quiet => cases h; exact Or.inr (Or.inr ⟨sound, by simpa using quiet, rfl⟩)

/-- The search goes on while there is a node to look at. -/
theorem stack_of_step_none {s : Search} (h : s.step source = none) : s.stack = [] := by
  rw [step] at h
  split at h
  · assumption
  · -- every branch of a turn gives a search
    repeat' split at h
    all_goals cases h

/-- A turn leaves fewer nodes to look at. -/
theorem step_fewer {s next : Search} (h : s.step source = some next) :
    (next.stack.flatMap Tree.nodes).length < (s.stack.flatMap Tree.nodes).length := by
  obtain ⟨t, rest, stack, cases⟩ := step_cases h
  rw [stack, List.flatMap_cons, Tree.nodes_eq, List.length_append, List.length_cons]
  rcases cases with ⟨-, rfl⟩ | ⟨-, -, rfl⟩ | ⟨-, -, rfl⟩
  · simp only; omega
  · rw [List.flatMap_append, List.length_append]; omega
  · simp only; omega

/-- Turns until the stack is empty. -/
def run (source : List UInt8) (s : Search) : List SyntaxFault :=
  match h : s.step source with
  | none => s.found
  | some next =>
    have := step_fewer h
    run source next
termination_by (s.stack.flatMap Tree.nodes).length
decreasing_by exact this

theorem run_of_step_none {s : Search} (h : s.step source = none) : s.run source = s.found := by
  rw [run]
  split
  · rfl
  · next h' => rw [h] at h'; cases h'

theorem run_of_step_some {s next : Search} (h : s.step source = some next) :
    s.run source = next.run source := by
  rw [run]
  split
  · next h' => rw [h] at h'; cases h'
  · next h' => rw [h] at h'; cases h'; rfl

/-- The syntax errors that a search is to find below a node of its stack. -/
def ahead (source : List UInt8) (t : Tree) : List SyntaxFault :=
  ((t.walk searches).filter isFault).map (of source)

/-- A turn changes nothing in what is found and ahead together. -/
theorem step_keeps {s next : Search} (h : s.step source = some next) :
    next.found ++ next.stack.flatMap (ahead source)
      = s.found ++ s.stack.flatMap (ahead source) := by
  obtain ⟨t, rest, stack, cases⟩ := step_cases h
  rw [stack, List.flatMap_cons]
  rcases cases with ⟨fault, rfl⟩ | ⟨sound, tells, rfl⟩ | ⟨sound, quiet, rfl⟩
  · have here : ahead source t = [of source t] := by
      simp [ahead, Tree.walk_eq _ t, searches, fault]
    rw [here, List.append_assoc]
  · have below : ahead source t = t.children.flatMap (ahead source) := by
      have entered : ∀ c, searches t c = true := by simp [searches, tells, sound]
      simp only [ahead, Tree.walk_eq _ t, entered, if_true, List.filter_cons, sound,
        Bool.false_eq_true, if_false, List.filter_flatMap, List.map_flatMap]
      rfl
    rw [below, List.flatMap_append]
  · have none : ahead source t = [] := by simp [ahead, Tree.walk_eq _ t, searches, quiet, sound]
    rw [none, List.nil_append]

/-- A run finds what was found before and what was ahead. -/
theorem run_eq (s : Search) : s.run source = s.found ++ s.stack.flatMap (ahead source) := by
  induction s using run.induct source with
  | case1 s done =>
    rw [run_of_step_none done, stack_of_step_none done, List.flatMap_nil, List.append_nil]
  | case2 s next turn _ ih => rw [run_of_step_some turn, ih, step_keeps turn]

end Search

/-- The search of a whole tree as a loop. It does not start where the outermost node does not tell of
    an error. -/
def searched (source : List UInt8) (root : Tree) : List SyntaxFault :=
  if root.label.hasError then Search.run source ⟨[root], []⟩ else []

theorem searched_eq (source : List UInt8) (root : Tree) :
    searched source root = collect source root := by
  rw [searched, collect, nodesIn, Search.run_eq]
  split <;> simp [Search.ahead]

/-! ### Topmost faults -/

/-- A file is partly measured where its tree has a fault. -/
theorem status_eq_partly_iff {root : Tree} (shows : root.ShowsFaults) (path : String)
    (language : Language) (source : List UInt8) :
    (ParsedFile.report path language ⟨source, root, collect source root⟩).status = .partly
      ↔ ∃ t ∈ root.nodes, t.label.error = true ∨ t.label.missing = true := by
  have status : (ParsedFile.report path language ⟨source, root, collect source root⟩).status
      = if (collect source root).isEmpty then .ok else .partly := rfl
  have found : (collect source root).isEmpty = false
      ↔ ∃ u ∈ root.sites, u.isTopFault = true := by
    simp [collect, Tree.nodesIn_eq shows, List.isEmpty_eq_false_iff]
  rw [← Tree.map_tree_sites]
  constructor
  · intro partly
    have some : (collect source root).isEmpty = false := by
      cases empty : (collect source root).isEmpty with
      | false => rfl
      | true => rw [status, empty] at partly; cases partly
    obtain ⟨u, hu, hit⟩ := found.1 some
    exact ⟨u.tree, List.mem_map_of_mem hu, by simpa [isFault] using (Site.isTopFault_iff.1 hit).1⟩
  · rintro ⟨t, ht, fault⟩
    obtain ⟨s, hs, rfl⟩ := List.mem_map.1 ht
    have some := found.2 (Tree.exists_topFault s hs (Or.inl (by simpa [isFault] using fault)))
    rw [status, some]
    rfl

/-- Where every topmost fault shows, the syntax errors of a tree are its topmost faults in the order
    of the nodes, each with its place and what it stands for; a loop over a stack finds the same.
    They come in the order of bytes where the nodes do, and the file is partly measured if there is
    a fault anywhere. -/
theorem topmost_faults_found {root : Tree} (shows : root.ShowsFaults) (path : String)
    (language : Language) (source : List UInt8) :
    let faults := collect source root
    faults = ((root.sites.filter (·.isTopFault)).map fun s =>
        { byteOffset := s.tree.label.start
          line := (Position.of source s.tree.label.start).row + 1
          column := (Position.of source s.tree.label.start).column + 1
          message := if s.tree.label.error then "unexpected syntax"
            else "missing \x60" ++ s.tree.kind ++ "\x60" }) ∧
      faults = searched source root ∧
      (root.InSourceOrder → faults.Pairwise fun a b => a.byteOffset ≤ b.byteOffset) ∧
      ((ParsedFile.report path language ⟨source, root, faults⟩).status = .partly
        ↔ ∃ t ∈ root.nodes, t.label.error = true ∨ t.label.missing = true) := by
  intro faults
  refine ⟨?_, (searched_eq source root).symm, fun order => ?_,
    status_eq_partly_iff shows path language source⟩
  · rw [show faults = (nodesIn root).map (of source) from rfl, Tree.nodesIn_eq shows, List.map_map]
    rfl
  · have sub : (nodesIn root).Sublist root.nodes := by
      rw [nodesIn]
      split
      · exact List.filter_sublist.trans (Tree.walk_sublist_nodes _ _)
      · exact List.nil_sublist _
    exact List.pairwise_map.2 (order.starts.sublist sub)

/-- A call without its closing bracket, then a sign that nothing can start with and another one
    inside that does not tell of an error, then a node that tells of one and shows none. -/
def brokenCall : Tree :=
  .node { kind := "module", hasError := true, stop := 13 }
    [.node { kind := "call", hasError := true, stop := 2 }
      [.node { kind := "identifier", stop := 1 } [],
       .node { kind := "(", named := false, start := 1, stop := 2 } [],
       .node { kind := ")", named := false, missing := true, hasError := true, start := 2, stop := 2 }
        []],
     .node { kind := "ERROR", error := true, hasError := true, start := 3, stop := 6 }
      [.node { kind := "+", named := false, start := 3, stop := 4 } [],
       .node { kind := "ERROR", error := true, start := 5, stop := 6 } []],
     .node { kind := "pass_statement", hasError := true, start := 7, stop := 11 } []]

theorem topmost_faults_found_brokenCall :
    let source := "f(\n+ $\npass\n".toUTF8.toList
    let faults := collect source brokenCall
    brokenCall.ShowsFaults ∧ brokenCall.InSourceOrder ∧
      faults = [⟨2, 1, 3, "missing \x60)\x60"⟩, ⟨3, 2, 1, "unexpected syntax"⟩] ∧
      searched source brokenCall = faults ∧
      faults.Pairwise (fun a b => a.byteOffset ≤ b.byteOffset) ∧
      (ParsedFile.report "a.py" .python ⟨source, brokenCall, faults⟩).status = .partly := by
  intro source faults
  have shows : brokenCall.ShowsFaults := by decide +kernel
  have order : brokenCall.InSourceOrder :=
    ⟨by decide +kernel, by decide +kernel, by decide +kernel⟩
  obtain ⟨listed, looped, ordered, partly⟩ := topmost_faults_found shows "a.py" .python source
  exact ⟨shows, order, listed.trans (by decide +kernel), looped.symm, ordered order,
    partly.2 (by decide +kernel)⟩

end SyntaxFault

end CodeMetrics
