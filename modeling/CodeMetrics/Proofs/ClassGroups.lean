import Mathlib.Data.List.Perm.Basic
import Mathlib.Order.Bounds.Basic
import CodeMetrics.Language.Rust
import CodeMetrics.Proofs.Lists
import CodeMetrics.Proofs.Sites
import CodeMetrics.Report.File

/-! Methods by class. What a method belongs to is said apart from the search for it
    (`Routine.owner?_eq_some_iff`). Gathering methods by the names of their owners rearranges them
    (`perm_flatMap_filter`), so that no method is lost or counted twice, in whatever order the
    declarations of a class stand in a file. -/

namespace CodeMetrics

/-! ### Owners -/

namespace Routine

/-- What a method belongs to: the type that its receiver tells or else the nearest class around it,
    as long as no routine stands between them. -/
inductive BelongsTo (g : Grammar) (source : List UInt8) (r : Routine) : Owner → Prop where
  | receiver {receiver name : Tree} (method : r.kind = .method)
    (receives : r.tree.child? "receiver" = some receiver)
    (first : (receiver.walk fun _ c => c.isNamed).find? (fun t => t.kind == "type_identifier")
      = some name) :
    BelongsTo g source r ⟨Owner.textOf source name, Owner.lineOf source r.tree⟩
  | enclosing {inner outer : List Tree} {t : Tree} (method : r.kind = .method)
    (free : r.tree.child? "receiver" = none) (around : r.site.above = inner ++ t :: outer)
    (isClass : g.isClass t = true)
    (nearest : ∀ u ∈ inner, g.isClass u = false ∧ g.isRoutine u = false) :
    BelongsTo g source r (Owner.ofClass source t)

/-- The owner of a method; no other routine has one. -/
def owner? (g : Grammar) (source : List UInt8) (r : Routine) : Option Owner :=
  if r.kind = .method then Owner.of? g source r.site else none

end Routine

namespace Owner

variable {g : Grammar} {source : List UInt8}

/-- The search goes on past what is neither class nor routine. -/
theorem around?_append {inner rest : List Tree}
    (passed : ∀ u ∈ inner, g.isClass u = false ∧ g.isRoutine u = false) :
    around? g source (inner ++ rest) = around? g source rest := by
  induction inner with
  | nil => rfl
  | cons u inner ih =>
    obtain ⟨⟨noClass, noRoutine⟩, passed⟩ := List.forall_mem_cons.1 passed
    rw [List.cons_append, around?, noClass, noRoutine]
    exact ih passed

/-- What the search finds is the nearest class. -/
theorem exists_of_around? {above : List Tree} {o : Owner} (h : around? g source above = some o) :
    ∃ inner t outer, above = inner ++ t :: outer ∧ g.isClass t = true ∧
      (∀ u ∈ inner, g.isClass u = false ∧ g.isRoutine u = false) ∧ ofClass source t = o := by
  induction above with
  | nil => cases h
  | cons u above ih =>
    rw [around?] at h
    split at h
    · next isClass =>
      exact ⟨[], u, above, rfl, isClass, List.forall_mem_nil _, Option.some.inj h⟩
    · next noClass =>
      split at h
      · cases h
      · next noRoutine =>
        obtain ⟨inner, t, outer, rfl, isClass, passed, same⟩ := ih h
        rw [Bool.not_eq_true] at noClass noRoutine
        exact ⟨u :: inner, t, outer, rfl, isClass,
          List.forall_mem_cons.2 ⟨⟨noClass, noRoutine⟩, passed⟩, same⟩

end Owner

theorem Routine.owner?_eq_some_iff {g : Grammar} {source : List UInt8} {r : Routine} {o : Owner} :
    r.owner? g source = some o ↔ r.BelongsTo g source o := by
  constructor
  · intro h
    rw [owner?] at h
    split at h
    · next method =>
      rw [Owner.of?] at h
      split at h
      · next receiver receives =>
        obtain ⟨name, first, rfl⟩ := Option.map_eq_some_iff.1 h
        exact .receiver method receives first
      · next free =>
        obtain ⟨inner, t, outer, around, isClass, nearest, rfl⟩ := Owner.exists_of_around? h
        exact .enclosing method free around isClass nearest
    · cases h
  · intro belongs
    rw [owner?]
    cases belongs with
    | receiver method receives first =>
      rw [if_pos method, Owner.of?, show r.site.tree.child? "receiver" = _ from receives]
      exact Option.map_eq_some_iff.2 ⟨_, first, rfl⟩
    | enclosing method free around isClass nearest =>
      rw [if_pos method, Owner.of?, show r.site.tree.child? "receiver" = _ from free]
      rw [around, Owner.around?_append nearest, Owner.around?, if_pos isClass]

/-! ### Gathering by name -/

namespace ClassMetrics

variable {g : Grammar} {source : List UInt8} {entries : List (Owner × Nat)}

/-- The names of owners, each of them once. -/
def namesOf (entries : List (Owner × Nat)) : List String := (entries.map (·.1.name)).eraseDups

theorem mem_namesOf {name : String} : name ∈ namesOf entries ↔ ∃ p ∈ entries, p.1.name = name := by
  rw [namesOf, List.mem_eraseDups, List.mem_map]

/-- What is summed up name by name is summed up over all. -/
theorem sumOf_namesOf (entries : List (Owner × Nat)) (score : Owner × Nat → Nat) :
    sumOf ((namesOf entries).map fun name =>
        sumOf ((entries.filter fun p => p.1.name == name).map score))
      = sumOf (entries.map score) := by
  have covered : ∀ p ∈ entries, p.1.name ∈ namesOf entries := fun p hp => mem_namesOf.2 ⟨p, hp, rfl⟩
  have perm := perm_flatMap_filter (fun p : Owner × Nat => p.1.name) (nodup_eraseDups _) covered
  rw [← sumOf_perm (perm.map score), List.map_flatMap, sumOf_flatMap]
  rfl

theorem isLeast_foldl_min {lines : List Nat} (h : lines ≠ []) :
    IsLeast {line | line ∈ lines} (lines.foldl min (lines.headD 0)) := by
  obtain ⟨first, rest, rfl⟩ := List.exists_cons_of_ne_nil h
  have least : (first :: rest).min? = some (rest.foldl min first) := List.min?_cons'
  rw [List.headD_cons, List.foldl_cons, Nat.min_self]
  exact List.min?_eq_some_iff.1 least

/-- A class starts on the first of its lines. -/
theorem isLeast_startLine {name : String} (h : name ∈ namesOf entries) :
    IsLeast {line | ∃ p ∈ entries, p.1.name = name ∧ p.1.line = line}
      (ofName entries name).startLine := by
  have same : {line | ∃ p ∈ entries, p.1.name = name ∧ p.1.line = line}
      = {line | line ∈ (entries.filter fun p => p.1.name == name).map (·.1.line)} := by
    ext line
    simp [and_assoc]
  obtain ⟨p, hp, named⟩ := mem_namesOf.1 h
  have own : p ∈ entries.filter fun p => p.1.name == name := by simp [hp, named]
  rw [same]
  exact isLeast_foldl_min (List.ne_nil_of_mem (List.mem_map_of_mem own))

/-- Earlier by first lines, then by names. -/
def Precedes (a b : ClassMetrics) : Prop :=
  a.startLine < b.startLine ∨ a.startLine = b.startLine ∧ a.name < b.name

theorem notAfter_iff {a b : ClassMetrics} : notAfter a b = true ↔
    a.startLine < b.startLine ∨ a.startLine = b.startLine ∧ a.name ≤ b.name := by
  simp [notAfter]

theorem pairwise_precedes {classes : List ClassMetrics} (distinct : (classes.map (·.name)).Nodup) :
    (classes.mergeSort notAfter).Pairwise Precedes := by
  have sorted : (classes.mergeSort notAfter).Pairwise fun a b => notAfter a b = true := by
    refine List.pairwise_mergeSort (fun a b c hab hbc => ?_) (fun a b => ?_) _
    · rw [notAfter_iff] at hab hbc ⊢
      rcases hab with hab | ⟨hab, nab⟩
      · exact .inl (by omega)
      rcases hbc with hbc | ⟨hbc, nbc⟩
      · exact .inl (by omega)
      exact .inr ⟨hab.trans hbc, String.le_trans nab nbc⟩
    · rw [Bool.or_eq_true, notAfter_iff, notAfter_iff]
      have names := String.le_total a.name b.name
      rcases Nat.lt_trichotomy a.startLine b.startLine with less | same | more
      · exact .inl (.inl less)
      · exact names.imp (fun h => .inr ⟨same, h⟩) (fun h => .inr ⟨same.symm, h⟩)
      · exact .inr (.inl more)
  have apart : (classes.mergeSort notAfter).Pairwise fun a b => a.name ≠ b.name :=
    List.pairwise_map.1 (((List.mergeSort_perm _ _).map _).nodup_iff.2 distinct)
  refine (sorted.and apart).imp fun ⟨le, ne⟩ => ?_
  exact (notAfter_iff.1 le).imp id fun ⟨same, le⟩ => ⟨same, Std.lt_of_le_of_ne le ne⟩

/-! ### The classes of a file -/

/-- The owners of the methods among some routines, each with the method's cyclomatic complexity. -/
def entriesOf (g : Grammar) (source : List UInt8) (routines : List Routine) : List (Owner × Nat) :=
  routines.filterMap fun r =>
    (r.owner? g source).map fun o => (o, (RoutineMetrics.of g source r).cyclomatic)

theorem owned_eq (routines : List Routine) :
    owned g source (routines.map fun r => (r, RoutineMetrics.of g source r))
      = entriesOf g source routines := by
  rw [owned, List.filterMap_map, entriesOf]
  congr 1
  funext r
  simp only [Function.comp_apply, Routine.owner?]
  split <;> rfl

theorem exists_entriesOf {routines : List Routine} (P : Owner → Prop) :
    (∃ p ∈ entriesOf g source routines, P p.1) ↔
      ∃ r ∈ routines, ∃ o, r.BelongsTo g source o ∧ P o := by
  simp only [entriesOf, List.mem_filterMap, Option.map_eq_some_iff, Routine.owner?_eq_some_iff]
  constructor
  · rintro ⟨_, ⟨r, hr, o, belongs, rfl⟩, holds⟩
    exact ⟨r, hr, o, belongs, holds⟩
  · rintro ⟨r, hr, o, belongs, holds⟩
    exact ⟨_, ⟨r, hr, o, belongs, rfl⟩, holds⟩

/-- The methods with an owner of some sort, seen from the entries and from the routines. -/
theorem map_filter_entriesOf (g : Grammar) (source : List UInt8) (p : Owner → Bool)
    (routines : List Routine) :
    ((entriesOf g source routines).filter fun q => p q.1).map (·.2)
      = (routines.filter fun r => (r.owner? g source).any p).map fun r =>
        (RoutineMetrics.of g source r).cyclomatic := by
  induction routines with
  | nil => rfl
  | cons r routines ih =>
    cases owner : r.owner? g source with
    | none => simpa [entriesOf, owner] using ih
    | some o =>
      cases wanted : p o <;> simpa [entriesOf, owner, wanted] using ih

/-- The methods with an owner at all. -/
theorem map_entriesOf (g : Grammar) (source : List UInt8) (routines : List Routine) :
    (entriesOf g source routines).map (·.2)
      = (routines.filter fun r => (r.owner? g source).isSome).map fun r =>
        (RoutineMetrics.of g source r).cyclomatic := by
  have all := map_filter_entriesOf g source (fun _ => true) routines
  simpa only [List.filter_true, Option.any_true] using all

/-- The methods with an owner of a name. -/
def membersOf (g : Grammar) (source : List UInt8) (routines : List Routine) (name : String) :
    List Routine :=
  routines.filter fun r => (r.owner? g source).any (·.name == name)

/-- What a class holds of some routines: the methods with an owner of its name. -/
structure Gathers (g : Grammar) (source : List UInt8) (routines : List Routine) (c : ClassMetrics) :
    Prop where
  methods : c.methods = (membersOf g source routines c.name).length
  wmc : c.wmc = sumOf ((membersOf g source routines c.name).map fun r =>
    (RoutineMetrics.of g source r).cyclomatic)
  startLine : IsLeast
    {line | ∃ r ∈ routines, ∃ o, r.BelongsTo g source o ∧ o.name = c.name ∧ o.line = line}
    c.startLine

theorem gathers_ofName {routines : List Routine} {name : String}
    (h : name ∈ namesOf (entriesOf g source routines)) :
    (ofName (entriesOf g source routines) name).Gathers g source routines := by
  have scores := map_filter_entriesOf g source (·.name == name) routines
  constructor
  · have lengths := congrArg List.length scores
    rwa [List.length_map, List.length_map] at lengths
  · exact congrArg sumOf scores
  · have least := isLeast_startLine h
    have same : {line | ∃ p ∈ entriesOf g source routines, p.1.name = name ∧ p.1.line = line}
        = {line | ∃ r ∈ routines, ∃ o, r.BelongsTo g source o ∧ o.name = name ∧ o.line = line} :=
      Set.ext fun line => exists_entriesOf fun o => o.name = name ∧ o.line = line
    rwa [same] at least

/-- The classes of some routines, in the order of the names of their owners. -/
def gathered (g : Grammar) (source : List UInt8) (routines : List Routine) : List ClassMetrics :=
  (namesOf (entriesOf g source routines)).map (ofName (entriesOf g source routines))

theorem of_eq (g : Grammar) (source : List UInt8) (routines : List Routine) :
    ClassMetrics.of g source (routines.map fun r => (r, RoutineMetrics.of g source r))
      = (gathered g source routines).mergeSort notAfter := by
  rw [ClassMetrics.of, owned_eq]
  rfl

theorem map_name_gathered (routines : List Routine) :
    (gathered g source routines).map (·.name) = namesOf (entriesOf g source routines) := by
  rw [gathered, List.map_map]
  exact List.map_id _

/-- Every method with an owner is in one class. -/
theorem sumOf_methods_gathered (routines : List Routine) :
    sumOf ((gathered g source routines).map (·.methods))
      = (routines.filter fun r => (r.owner? g source).isSome).length := by
  have all := congrArg List.length (map_entriesOf g source routines)
  rw [List.length_map, List.length_map] at all
  have ones := sumOf_namesOf (entriesOf g source routines) fun _ => 1
  simp only [sumOf_one, all] at ones
  rwa [gathered, List.map_map]

theorem sumOf_wmc_gathered (routines : List Routine) :
    sumOf ((gathered g source routines).map (·.wmc))
      = sumOf ((routines.filter fun r => (r.owner? g source).isSome).map fun r =>
        (RoutineMetrics.of g source r).cyclomatic) := by
  rw [gathered, List.map_map, ← map_entriesOf, ← sumOf_namesOf]
  rfl

end ClassMetrics

/-- Methods by class. The classes of a file have different names and are in the order of their first
    lines, then of their names. There is one for each name of an owner, with the methods that belong
    to an owner of that name; so all methods with an owner are counted, each of them once. -/
theorem FileMeasures.classes_gather_methods (g : Grammar) (source : List UInt8) (root : Tree) :
    let routines := Routine.all g source root
    let classes := (FileMeasures.of g source root).classes
    let methods := routines.filter fun r => (r.owner? g source).isSome
    (∀ r ∈ routines, ∀ o, r.owner? g source = some o ↔ r.BelongsTo g source o) ∧
    (classes.map (·.name)).Nodup ∧
    classes.Pairwise ClassMetrics.Precedes ∧
    (∀ name, (∃ c ∈ classes, c.name = name) ↔
      ∃ r ∈ routines, ∃ o, r.BelongsTo g source o ∧ o.name = name) ∧
    (∀ c ∈ classes, c.Gathers g source routines) ∧
    sumOf (classes.map (·.methods)) = methods.length ∧
    (FileTotals.of (FileMeasures.of g source root)).wmc
      = sumOf (methods.map fun r => (RoutineMetrics.of g source r).cyclomatic) := by
  intro routines classes methods
  have made : classes = (ClassMetrics.gathered g source routines).mergeSort ClassMetrics.notAfter :=
    ClassMetrics.of_eq g source routines
  have perm : classes.Perm (ClassMetrics.gathered g source routines) := by
    rw [made]
    exact List.mergeSort_perm _ _
  have distinct : ((ClassMetrics.gathered g source routines).map (·.name)).Nodup := by
    rw [ClassMetrics.map_name_gathered]
    exact nodup_eraseDups _
  refine ⟨fun r _ o => Routine.owner?_eq_some_iff, (perm.map _).nodup_iff.2 distinct,
    ?_, ?_, ?_, ?_, ?_⟩
  · rw [made]
    exact ClassMetrics.pairwise_precedes distinct
  · intro name
    rw [← List.mem_map, (perm.map _).mem_iff, ClassMetrics.map_name_gathered,
      ClassMetrics.mem_namesOf]
    exact ClassMetrics.exists_entriesOf fun o => o.name = name
  · intro c hc
    obtain ⟨name, hname, rfl⟩ := List.mem_map.1 (perm.mem_iff.1 hc)
    exact ClassMetrics.gathers_ofName hname
  · rw [sumOf_perm (perm.map _), ClassMetrics.sumOf_methods_gathered]
  · rw [FileTotals.of, sumOf_perm (perm.map _), ClassMetrics.sumOf_wmc_gathered]

open CodeMetrics.Tree in
/-- Two blocks of one type, the first of them with an argument of the type. -/
def twoBlocks : Tree :=
  let function (start : Nat) : Tree :=
    partAt "function_item" none start (start + 8)
      [partAt "identifier" (some "name") (start + 3) (start + 4) [],
       partAt "parameters" (some "parameters") (start + 4) (start + 6) [],
       partAt "block" (some "body") (start + 6) (start + 8) []]
  partAt "source_file" none 0 39
    [partAt "impl_item" none 0 20
      [partAt "generic_type" (some "type") 5 9 [partAt "type_identifier" (some "type") 5 6 []],
       partAt "declaration_list" (some "body") 10 20 [function 11]],
     partAt "impl_item" none 21 38
      [partAt "type_identifier" (some "type") 26 27 [],
       partAt "declaration_list" (some "body") 28 38 [function 29]]]

theorem FileMeasures.classes_gather_methods_twoBlocks :
    let source := Utf8.encode "impl S<T> \x7bfn f()\x7b\x7d\x7d\nimpl S \x7bfn g()\x7b\x7d\x7d\n"
    (FileMeasures.of .rust source twoBlocks).classes = [⟨"S", 1, 2, 2⟩] ∧
      ClassMetrics.Gathers .rust source (Routine.all .rust source twoBlocks) ⟨"S", 1, 2, 2⟩ := by
  intro source
  have merged : (FileMeasures.of .rust source twoBlocks).classes = [⟨"S", 1, 2, 2⟩] := by
    have listed : Routine.all .rust source twoBlocks
        = (Finding.distinct (Finding.all .rust source twoBlocks)).map
          (Routine.ofFindings .rust source (Finding.all .rust source twoBlocks)) :=
      List.mergeSort_of_pairwise (by decide +kernel)
    have classes := ClassMetrics.of_eq .rust source (Routine.all .rust source twoBlocks)
    rw [listed, List.mergeSort_of_pairwise (by decide +kernel)] at classes
    rw [FileMeasures.of, listed, classes]
    decide +kernel
  obtain ⟨-, -, -, -, gathers, -⟩ := FileMeasures.classes_gather_methods .rust source twoBlocks
  exact ⟨merged, gathers _ (by rw [merged]; exact List.mem_singleton_self _)⟩

end CodeMetrics
