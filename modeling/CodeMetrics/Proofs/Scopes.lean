import CodeMetrics.Measure.File
import CodeMetrics.Proofs.Positions
import CodeMetrics.Proofs.Routines

/-! Where the measured routines of a file stand. They are sorted by bytes, and what is told of them
    are lines and columns; since positions come in the order of bytes, the routines come in the
    order of lines and columns as well, and none of them ends before it starts.

    The depth of a routine is read off the nodes around it, by their kinds. The nodes around a site
    are the sites above it, so where every node of a kind of routines is found, the depth is the
    number of listed routines above. -/

namespace CodeMetrics

/-! ### Sites above a site -/

namespace Site

/-- Whether a site is properly above another one: the way to the other goes on from it. -/
def isAbove (u s : Site) : Bool := u.way.isSuffixOf s.way && u.way != s.way

theorem isAbove_iff {u s : Site} : u.isAbove s = true ↔ u.way <:+ s.way ∧ u.way ≠ s.way := by
  simp [isAbove]

theorem isAbove_top (u : Site) (root : Tree) : u.isAbove ⟨root, [], []⟩ = false := by
  rw [← Bool.not_eq_true, isAbove_iff]
  rintro ⟨suffix, apart⟩
  exact apart (List.suffix_nil.1 suffix)

/-- What is above a child is its parent and what is above that. -/
theorem isAbove_down {u s : Site} {index : ℕ} {c : Tree} :
    u.isAbove (s.down index c) = true ↔ u.way = s.way ∨ u.isAbove s = true := by
  rw [isAbove_iff, isAbove_iff, down, List.suffix_cons_iff]
  constructor
  · rintro ⟨same | suffix, apart⟩
    · exact absurd same apart
    · by_cases here : u.way = s.way
      · exact Or.inl here
      · exact Or.inr ⟨suffix, here⟩
  · have longer : u.way <:+ s.way → u.way ≠ index :: s.way := by
      intro suffix same
      have := suffix.length_le
      rw [same, List.length_cons] at this
      omega
    rintro (same | ⟨suffix, -⟩)
    · have suffix : u.way <:+ s.way := same ▸ List.suffix_rfl
      exact ⟨Or.inr suffix, longer suffix⟩
    · exact ⟨Or.inr suffix, longer suffix⟩

end Site

/-- The nodes around a site are those of the sites above it. -/
theorem Tree.above_perm {root : Tree} : ∀ s ∈ root.sites,
    ((root.sites.filter fun u => u.isAbove s).map (·.tree)).Perm s.above := by
  have nodup : root.sites.Nodup := List.Nodup.of_map _ (ways_nodup root)
  refine sites_induct ?_ fun s hs ih index c _ => ?_
  · simp [Site.isAbove_top]
  · have apart : s ∉ root.sites.filter fun u => u.isAbove s := by
      simp [Site.isAbove_iff]
    have more : (root.sites.filter fun u => u.isAbove (s.down index c)).Perm
        (s :: root.sites.filter fun u => u.isAbove s) := by
      refine (List.perm_ext_iff_of_nodup (nodup.filter _)
        (List.nodup_cons.2 ⟨apart, nodup.filter _⟩)).2 fun u => ?_
      rw [List.mem_cons, List.mem_filter, List.mem_filter, Site.isAbove_down]
      constructor
      · rintro ⟨hu, same | above⟩
        · exact Or.inl (eq_of_way hu hs same)
        · exact Or.inr ⟨hu, above⟩
      · rintro (rfl | ⟨hu, above⟩)
        · exact ⟨hs, Or.inl rfl⟩
        · exact ⟨hu, Or.inr above⟩
    exact (more.map _).trans (ih.cons s.tree)

/-! ### Routines in order -/

namespace Routine

variable {g : Grammar} {source : List UInt8} {root : Tree}

/-- Where every routine is found, the depth of one is the number of routines above it. -/
theorem depth_eq (marks : ∀ p ∈ g.routines, g.marksRoutine p = true) (finds : g.FindsRoutines root)
    {r : Routine} (h : r ∈ Routine.all g source root) :
    r.depth = (Routine.all g source root).countP fun o => o.site.isAbove r.site := by
  obtain ⟨f, hf, hr⟩ := exists_finding h
  have around : r.depth = r.site.above.countP g.isRoutine := by
    rw [hr, List.countP_eq_length_filter]
    rfl
  have there : r.site ∈ root.sites := by
    rw [hr]
    exact (Finding.site_of_mem_all marks hf).1
  calc r.depth
      = r.site.above.countP g.isRoutine := around
    _ = ((root.sites.filter fun u => u.isAbove r.site).map (·.tree)).countP g.isRoutine :=
        ((Tree.above_perm r.site there).countP_eq _).symm
    _ = (root.sites.filter fun u => g.isRoutine u.tree).countP fun u => u.isAbove r.site := by
        rw [List.countP_map, List.countP_filter, List.countP_filter]
        exact List.countP_congr fun u _ => by rw [Function.comp_apply, Bool.and_comm]
    _ = ((Routine.all g source root).map (·.site)).countP fun u => u.isAbove r.site :=
        ((sites_perm source marks finds).countP_eq _).symm
    _ = (Routine.all g source root).countP fun o => o.site.isAbove r.site := List.countP_map

end Routine

namespace RoutineMetrics

/-- Where a measured routine starts, by line and column. -/
def first (r : RoutineMetrics) : ℕ ×ₗ ℕ := toLex (r.startLine, r.startColumn)

/-- Where a measured routine ends, by line and column. -/
def last (r : RoutineMetrics) : ℕ ×ₗ ℕ := toLex (r.endLine, r.endColumn)

end RoutineMetrics

/-- Lines and columns count from one, and compare as rows and columns from zero do. -/
theorem Position.shown_le {p q : Position} (h : p.order ≤ q.order) :
    toLex (p.row + 1, p.column + 1) ≤ toLex (q.row + 1, q.column + 1) := by
  rw [order, order, Prod.Lex.toLex_le_toLex] at h
  rw [Prod.Lex.toLex_le_toLex]
  rcases h with less | ⟨same, less⟩
  · exact Or.inl (Nat.succ_lt_succ less)
  · exact Or.inr ⟨congrArg Nat.succ same, Nat.succ_le_succ less⟩

section Measured

variable {g : Grammar} {source : List UInt8} {root : Tree} {r : Routine}

theorem first_of_mem (h : r ∈ Routine.all g source root) :
    (RoutineMetrics.of g source r).first
      = toLex ((Position.of source r.tree.label.start).row + 1,
          (Position.of source r.tree.label.start).column + 1) := by
  obtain ⟨f, -, rfl⟩ := Routine.exists_finding h
  rfl

theorem last_of_mem (h : r ∈ Routine.all g source root) :
    (RoutineMetrics.of g source r).last
      = toLex ((Position.of source r.tree.label.stop).row + 1,
          (Position.of source r.tree.label.stop).column + 1) := by
  obtain ⟨f, -, rfl⟩ := Routine.exists_finding h
  rfl

theorem first_le_first {o : Routine} (h : r ∈ Routine.all g source root)
    (h' : o ∈ Routine.all g source root) (places : r.place ≤ o.place) :
    (RoutineMetrics.of g source r).first ≤ (RoutineMetrics.of g source o).first := by
  have starts : r.tree.label.start ≤ o.tree.label.start := by
    rcases Prod.Lex.toLex_le_toLex.1 places with less | ⟨same, -⟩
    · exact le_of_lt less
    · exact le_of_eq same
  rw [first_of_mem h, first_of_mem h']
  exact Position.shown_le (Position.order_monotone source starts)

theorem first_le_last (h : r ∈ Routine.all g source root)
    (forward : r.tree.label.start ≤ r.tree.label.stop) :
    (RoutineMetrics.of g source r).first ≤ (RoutineMetrics.of g source r).last := by
  rw [first_of_mem h, last_of_mem h]
  exact Position.shown_le (Position.order_monotone source forward)

end Measured

/-- The measured routines of a file are those listed, in the order of lines and columns. None ends
    before it starts, and it has the lines from its first to its last. Where every node of a kind of
    routines is found, the depth of a routine is the number of listed routines above it. -/
theorem routines_in_place (l : Language) {source : List UInt8} {root : Tree}
    (within : root.Within source) :
    let listed := Routine.all l.grammar source root
    let measured := (FileMeasures.of l.grammar source root).routines
    measured = listed.map (RoutineMetrics.of l.grammar source) ∧
      measured.Pairwise (fun a b => a.first ≤ b.first) ∧
      (∀ r ∈ measured, r.first ≤ r.last ∧ (r.physicalLines : ℤ) = r.endLine - r.startLine + 1) ∧
      (l.grammar.FindsRoutines root → measured.map (·.scopeDepth)
        = listed.map fun r => listed.countP fun o => o.site.isAbove r.site) := by
  intro listed measured
  have same : measured = listed.map (RoutineMetrics.of l.grammar source) := List.map_map
  refine ⟨same, ?_, ?_, fun finds => ?_⟩
  · rw [same, List.pairwise_map]
    exact (Routine.sorted_all l.grammar source root).imp_of_mem fun ha hb => first_le_first ha hb
  · rw [same]
    intro m hm
    obtain ⟨r, hr, rfl⟩ := List.mem_map.1 hm
    obtain ⟨f, hf, hrf⟩ := Routine.exists_finding hr
    have forward : r.tree.label.start ≤ r.tree.label.stop := by
      rw [hrf]
      exact (within f.site (Finding.site_of_mem_all l.marksRoutine hf).1).1
    have ordered := first_le_last hr forward
    refine ⟨ordered, ?_⟩
    have lines : (RoutineMetrics.of l.grammar source r).startLine
        ≤ (RoutineMetrics.of l.grammar source r).endLine := by
      rcases Prod.Lex.toLex_le_toLex.1 ordered with less | ⟨same, -⟩
      · exact le_of_lt less
      · exact le_of_eq same
    have counted : (RoutineMetrics.of l.grammar source r).physicalLines
        = (RoutineMetrics.of l.grammar source r).endLine
          - (RoutineMetrics.of l.grammar source r).startLine + 1 := rfl
    omega
  · rw [same, List.map_map]
    exact List.map_congr_left fun r hr => Routine.depth_eq l.marksRoutine finds hr

open CodeMetrics.Tree in
/-- A function whose body is a lambda on the next line. -/
def functionAroundLambda : Tree :=
  partAt "module" none 0 21
    [partAt "function_definition" none 0 20
      [partAt "identifier" (some "name") 4 5 [], partAt "parameters" (some "parameters") 5 7 [],
       partAt "block" (some "body") 11 20
        [partAt "expression_statement" none 11 20
          [partAt "lambda" none 11 20 [partAt "integer" (some "body") 19 20 []]]]]]

theorem routines_in_place_functionAroundLambda :
    let source := "def f():\n  lambda: 1\n".toUTF8.toList
    let listed := Routine.all .python source functionAroundLambda
    let measured := (FileMeasures.of .python source functionAroundLambda).routines
    functionAroundLambda.Within source ∧ Grammar.python.FindsRoutines functionAroundLambda ∧
      listed.map (·.depth) = [0, 1] ∧ measured.Pairwise (fun a b => a.first ≤ b.first) ∧
      measured.map (·.scopeDepth)
        = listed.map fun r => listed.countP fun o => o.site.isAbove r.site := by
  intro source listed measured
  have within : functionAroundLambda.Within source := by decide +kernel
  have finds : Grammar.python.FindsRoutines functionAroundLambda := by
    unfold Grammar.FindsRoutines
    decide +kernel
  have depths : listed.map (·.depth) = [0, 1] := by
    have sorted : listed = (Finding.distinct (Finding.all .python source functionAroundLambda)).map
        (Routine.ofFindings .python source (Finding.all .python source functionAroundLambda)) :=
      List.mergeSort_of_pairwise (by decide +kernel)
    rw [sorted]
    decide +kernel
  obtain ⟨-, ordered, -, counts⟩ := routines_in_place .python within
  exact ⟨within, finds, depths, ordered, counts finds⟩

end CodeMetrics
