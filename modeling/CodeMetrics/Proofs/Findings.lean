import CodeMetrics.Proofs.Naming

/-! The routines of a tree do not show the order in which they were found.

    Matches can be merged as they come, in a table with an entry for each node: the kind of higher
    rank counts, and the first name. Whatever the order, an entry has the highest kind among the
    findings at its node; it has the same name where these do not give two names. So the tables of
    two orders hold the same entries. Sorting them by place leaves no choice where no two routines
    have the same place. -/

namespace CodeMetrics

namespace RoutineKind

theorem rank_higher (a b : RoutineKind) : (a.higher b).rank = max a.rank b.rank := by
  rw [higher]
  split
  · omega
  · omega

theorem higher_eq_or (a b : RoutineKind) : a.higher b = a ∨ a.higher b = b := by
  rw [higher]
  split
  · exact Or.inr rfl
  · exact Or.inl rfl

theorem eq_of_rank {a b : RoutineKind} (h : a.rank = b.rank) : a = b := by
  cases a <;> cases b <;> first | rfl | cases h

end RoutineKind

namespace Finding

/-! ### Tables of findings -/

/-- Two findings at one node as one: the kind of higher rank, and the first name. -/
def merge (e f : Finding) : Finding := ⟨e.site, e.kind.higher f.kind, e.name.or f.name⟩

/-- Enters a finding in a table with one entry for each node. -/
def enter : List Finding → Finding → List Finding
  | [], f => [f]
  | e :: rest, f => if e.site.way == f.site.way then e.merge f :: rest else e :: enter rest f

/-- The table of some findings, entered one after the other. -/
def table (findings : List Finding) : List Finding := findings.foldl enter []

variable {seen seen' entries entries' front back : List Finding} {e e' f : Finding}

theorem enter_new (new : ∀ e ∈ entries, e.site.way ≠ f.site.way) :
    enter entries f = entries ++ [f] := by
  induction entries with
  | nil => rfl
  | cons e rest ih =>
    obtain ⟨he, hrest⟩ := List.forall_mem_cons.1 new
    rw [enter, if_neg (by simpa using he), ih hrest, List.cons_append]

theorem enter_old (before : ∀ e ∈ front, e.site.way ≠ f.site.way) (here : e.site.way = f.site.way) :
    enter (front ++ e :: back) f = front ++ e.merge f :: back := by
  induction front with
  | nil => rw [List.nil_append, enter, if_pos (by simpa using here), List.nil_append]
  | cons d front ih =>
    obtain ⟨hd, hfront⟩ := List.forall_mem_cons.1 before
    rw [List.cons_append, enter, if_neg (by simpa using hd), ih hfront, List.cons_append]

/-! ### What an entry sums up -/

/-- An entry sums up the findings at its node. -/
structure Sums (seen : List Finding) (e : Finding) : Prop where
  site : ∃ f ∈ seen, f.site = e.site
  kind : ∃ f ∈ alike seen e, f.kind = e.kind
  highest : ∀ f ∈ alike seen e, f.kind.rank ≤ e.kind.rank
  name : e.name = firstName (alike seen e)

/-- Findings fit together: a way leads to one site, and no node is given two names. -/
structure Consistent (seen : List Finding) : Prop where
  sites : ∀ f ∈ seen, ∀ f' ∈ seen, f.site.way = f'.site.way → f.site = f'.site
  names : ∀ f ∈ seen, ∀ f' ∈ seen, f.site.way = f'.site.way → ∀ name name',
    f.name = some name → f'.name = some name' → name = name'

theorem Consistent.perm (h : Consistent seen) (order : seen.Perm seen') : Consistent seen' where
  sites f hf f' hf' := h.sites f (order.mem_iff.2 hf) f' (order.mem_iff.2 hf')
  names f hf f' hf' := h.names f (order.mem_iff.2 hf) f' (order.mem_iff.2 hf')

theorem mem_alike : f ∈ alike seen e ↔ f ∈ seen ∧ f.site.way = e.site.way := by
  simp [alike]

theorem alike_append_same (same : f.site.way = e.site.way) :
    alike (seen ++ [f]) e = alike seen e ++ [f] := by
  simp [alike, same]

theorem alike_append_other (apart : f.site.way ≠ e.site.way) :
    alike (seen ++ [f]) e = alike seen e := by
  simp [alike, apart]

namespace Sums

/-- A finding at another node changes nothing. -/
theorem keep (h : Sums seen e) (apart : f.site.way ≠ e.site.way) : Sums (seen ++ [f]) e := by
  obtain ⟨⟨d, hd, site⟩, kind, highest, name⟩ := h
  refine ⟨⟨d, List.mem_append_left _ hd, site⟩, ?_, ?_, ?_⟩
  · rwa [alike_append_other apart]
  · rwa [alike_append_other apart]
  · rwa [alike_append_other apart]

/-- One more finding at the node is merged. -/
theorem merge (h : Sums seen e) (same : f.site.way = e.site.way) :
    Sums (seen ++ [f]) (e.merge f) := by
  obtain ⟨⟨d, hd, site⟩, ⟨k, hk, kind⟩, highest, name⟩ := h
  have more : alike (seen ++ [f]) (e.merge f) = alike seen e ++ [f] := alike_append_same same
  have rank : (e.merge f).kind.rank = max e.kind.rank f.kind.rank := RoutineKind.rank_higher _ _
  refine ⟨⟨d, List.mem_append_left _ hd, site⟩, ?_, ?_, ?_⟩
  · rw [more]
    rcases RoutineKind.higher_eq_or e.kind f.kind with here | here
    · exact ⟨k, List.mem_append_left _ hk, kind.trans here.symm⟩
    · exact ⟨f, List.mem_append_right _ List.mem_cons_self, here.symm⟩
  · rw [more, rank]
    intro d hd
    rcases List.mem_append.1 hd with hd | hd
    · have := highest d hd
      omega
    · rw [List.mem_singleton.1 hd]
      omega
  · rw [more, firstName, List.findSome?_append, ← firstName, ← name, List.findSome?_singleton]
    rfl

/-- The first finding at a node is its entry. -/
theorem new (first : ∀ d ∈ seen, d.site.way ≠ f.site.way) : Sums (seen ++ [f]) f := by
  have none : alike seen f = [] := by
    rw [alike, List.filter_eq_nil_iff]
    intro d hd
    simpa using first d hd
  have only : alike (seen ++ [f]) f = [f] := by rw [alike_append_same rfl, none, List.nil_append]
  refine ⟨⟨f, List.mem_append_right _ List.mem_cons_self, rfl⟩, ?_, ?_, ?_⟩
  · rw [only]
    exact ⟨f, List.mem_cons_self, rfl⟩
  · rw [only]
    intro d hd
    rw [List.mem_singleton.1 hd]
  · rw [only, firstName, List.findSome?_singleton]

/-- Findings at the way of an entry are at its node. -/
theorem site_eq (h : Sums seen e) (fit : Consistent seen) (hf : f ∈ seen)
    (way : f.site.way = e.site.way) : f.site = e.site := by
  obtain ⟨f', hf', site⟩ := h.site
  rw [← site] at way ⊢
  exact fit.sites f hf f' hf' way

/-- A name that a finding gives is the name of the entry. -/
theorem name_of_mem (h : Sums seen e) (fit : Consistent seen) (hf : f ∈ alike seen e)
    {name : String} (named : f.name = some name) : e.name = some name := by
  rw [h.name]
  cases found : firstName (alike seen e) with
  | none =>
    rw [List.findSome?_eq_none_iff.1 found f hf] at named
    cases named
  | some name' =>
    obtain ⟨f', hf', named'⟩ := List.exists_of_findSome?_eq_some found
    obtain ⟨hf, way⟩ := mem_alike.1 hf
    obtain ⟨hf', way'⟩ := mem_alike.1 hf'
    rw [fit.names f hf f' hf' (way.trans way'.symm) name name' named named']

/-- Where no finding gives a name, the entry has none. -/
theorem name_eq_none (h : Sums seen e) (unnamed : ∀ f ∈ alike seen e, f.name = none) :
    e.name = none := by
  rw [h.name]
  exact List.findSome?_eq_none_iff.2 unnamed

/-- What sums up the same findings at one node in two orders is the same. -/
theorem unique (h : Sums seen e) (h' : Sums seen' e') (order : seen.Perm seen')
    (fit : Consistent seen) (way : e.site.way = e'.site.way) : e = e' := by
  have alike_perm : (alike seen e).Perm (alike seen' e') := by
    rw [alike, alike, way]
    exact order.filter _
  have site : e.site = e'.site := by
    obtain ⟨f', hf', here⟩ := h'.site
    rw [← here] at way ⊢
    exact (h.site_eq fit (order.mem_iff.2 hf') way.symm).symm
  have kind : e.kind = e'.kind := by
    obtain ⟨f, hf, hfe⟩ := h.kind
    obtain ⟨f', hf', hfe'⟩ := h'.kind
    have le := h'.highest f (alike_perm.mem_iff.1 hf)
    have ge := h.highest f' (alike_perm.mem_iff.2 hf')
    rw [hfe] at le
    rw [hfe'] at ge
    exact RoutineKind.eq_of_rank (Nat.le_antisymm le ge)
  have name : e.name = e'.name := by
    cases found : e.name with
    | none =>
      refine (h'.name_eq_none fun f hf => ?_).symm
      have none : firstName (alike seen e) = none := h.name.symm.trans found
      exact List.findSome?_eq_none_iff.1 none f (alike_perm.mem_iff.2 hf)
    | some name =>
      obtain ⟨f, hf, named⟩ := List.exists_of_findSome?_eq_some (h.name.symm.trans found)
      exact (h'.name_of_mem (fit.perm order) (alike_perm.mem_iff.1 hf) named).symm
  obtain ⟨_, _, _⟩ := e
  obtain ⟨_, _, _⟩ := e'
  cases site
  cases kind
  cases name
  rfl

end Sums

/-! ### What a table holds -/

/-- A table has one entry for each node with a finding, which sums up the findings there. -/
structure Tabulates (seen entries : List Finding) : Prop where
  nodup : (entries.map (·.site.way)).Nodup
  all : ∀ f ∈ seen, f.site.way ∈ entries.map (·.site.way)
  sums : ∀ e ∈ entries, Sums seen e

namespace Tabulates

/-- The other entries are at other nodes. -/
theorem others (h : Tabulates seen (front ++ e :: back)) :
    ∀ d ∈ front ++ back, d.site.way ≠ e.site.way := by
  intro d hd same
  have nodup := h.nodup
  rw [List.map_append, List.map_cons, List.nodup_middle, List.nodup_cons, ← List.map_append]
    at nodup
  exact nodup.1 (List.mem_map.2 ⟨d, hd, same⟩)

/-- A finding at the node of an entry is merged with it. -/
theorem merge (h : Tabulates seen (front ++ e :: back)) (here : f.site.way = e.site.way) :
    Tabulates (seen ++ [f]) (front ++ e.merge f :: back) := by
  have ways : (front ++ e.merge f :: back).map (·.site.way)
      = (front ++ e :: back).map (·.site.way) := by
    rw [List.map_append, List.map_append]
    rfl
  have keep : ∀ d ∈ front ++ back, Sums (seen ++ [f]) d := by
    intro d hd
    refine (h.sums d ?_).keep fun same => h.others d hd (same.symm.trans here)
    exact List.perm_middle.mem_iff.2 (List.mem_cons_of_mem _ hd)
  refine ⟨by rw [ways]; exact h.nodup, ?_, ?_⟩
  · rw [ways]
    intro d hd
    rcases List.mem_append.1 hd with hd | hd
    · exact h.all d hd
    · rw [List.mem_singleton.1 hd, here]
      exact List.mem_map_of_mem (List.mem_append_right _ List.mem_cons_self)
  · intro d hd
    rcases List.mem_cons.1 (List.perm_middle.mem_iff.1 hd) with rfl | hd
    · exact (h.sums e (List.mem_append_right _ List.mem_cons_self)).merge here
    · exact keep d hd

/-- A finding at a node without an entry is a new one. -/
theorem add (h : Tabulates seen entries) (new : f.site.way ∉ entries.map (·.site.way)) :
    Tabulates (seen ++ [f]) (entries ++ [f]) := by
  refine ⟨?_, ?_, ?_⟩
  · rw [List.map_append, List.map_singleton, List.nodup_append_comm, List.singleton_append]
    exact List.nodup_cons.2 ⟨new, h.nodup⟩
  · intro d hd
    rw [List.map_append]
    rcases List.mem_append.1 hd with hd | hd
    · exact List.mem_append_left _ (h.all d hd)
    · rw [List.mem_singleton.1 hd]
      exact List.mem_append_right _ List.mem_cons_self
  · intro d hd
    rcases List.mem_append.1 hd with hd | hd
    · exact (h.sums d hd).keep fun same => new (List.mem_map.2 ⟨d, hd, same.symm⟩)
    · rw [List.mem_singleton.1 hd]
      exact Sums.new fun d hd same => new (same ▸ h.all d hd)

theorem enter (h : Tabulates seen entries) (f : Finding) :
    Tabulates (seen ++ [f]) (enter entries f) := by
  by_cases old : f.site.way ∈ entries.map (·.site.way)
  · obtain ⟨e, he, here⟩ := List.mem_map.1 old
    obtain ⟨front, back, rfl⟩ := List.append_of_mem he
    rw [enter_old (fun d hd => here ▸ h.others d (List.mem_append_left _ hd)) here]
    exact h.merge here.symm
  · rw [enter_new fun e he same => old (List.mem_map.2 ⟨e, he, same⟩)]
    exact h.add old

theorem enterAll (h : Tabulates seen entries) (findings : List Finding) :
    Tabulates (seen ++ findings) (findings.foldl Finding.enter entries) := by
  induction findings generalizing seen entries with
  | nil => simpa using h
  | cons f findings ih => simpa [List.append_assoc] using ih (h.enter f)

theorem subset (h : Tabulates seen entries) (h' : Tabulates seen' entries')
    (order : seen.Perm seen') (fit : Consistent seen) : ∀ e ∈ entries, e ∈ entries' := by
  intro e he
  obtain ⟨f, hf, site⟩ := (h.sums e he).site
  obtain ⟨e', he', way⟩ := List.mem_map.1 (h'.all f (order.mem_iff.1 hf))
  rw [site] at way
  rwa [(h.sums e he).unique (h'.sums e' he') order fit way.symm]

/-- Tables of the same findings in two orders hold the same entries. -/
theorem perm (h : Tabulates seen entries) (h' : Tabulates seen' entries') (order : seen.Perm seen')
    (fit : Consistent seen) : entries.Perm entries' := by
  refine (List.perm_ext_iff_of_nodup h.nodup.of_map h'.nodup.of_map).2 fun e => ⟨?_, ?_⟩
  · exact h.subset h' order fit e
  · exact h'.subset h order.symm (fit.perm order) e

/-- A table may be read in any order. -/
theorem read (h : Tabulates seen entries) (order : entries'.Perm entries) :
    Tabulates seen entries' where
  nodup := (order.map (·.site.way)).nodup_iff.2 h.nodup
  all f hf := (order.map (·.site.way)).mem_iff.2 (h.all f hf)
  sums e he := h.sums e (order.mem_iff.1 he)

end Tabulates

theorem tabulates_table (findings : List Finding) : Tabulates findings (table findings) := by
  have empty : Tabulates [] [] := ⟨List.nodup_nil, List.forall_mem_nil _, List.forall_mem_nil _⟩
  exact empty.enterAll findings

/-! ### Findings gathered by node -/

/-- All findings at the node of one of them, as an entry. -/
def gather (findings : List Finding) (f : Finding) : Finding :=
  ⟨f.site, f.bestKind (alike findings f), firstName (alike findings f)⟩

theorem foldl_higher (others : List Finding) : ∀ kind : RoutineKind,
    let best := others.foldl (fun kind other => kind.higher other.kind) kind
    (best = kind ∨ ∃ f ∈ others, f.kind = best) ∧ kind.rank ≤ best.rank ∧
      ∀ f ∈ others, f.kind.rank ≤ best.rank := by
  induction others with
  | nil => intro kind; exact ⟨Or.inl rfl, le_rfl, List.forall_mem_nil _⟩
  | cons d others ih =>
    intro kind best
    obtain ⟨from_, above, others_above⟩ := ih (kind.higher d.kind)
    have rank := RoutineKind.rank_higher kind d.kind
    refine ⟨?_, ?_, ?_⟩
    · rcases from_ with here | ⟨f, hf, there⟩
      · rcases RoutineKind.higher_eq_or kind d.kind with same | same
        · exact Or.inl (here.trans same)
        · exact Or.inr ⟨d, List.mem_cons_self, same.symm.trans here.symm⟩
      · exact Or.inr ⟨f, List.mem_cons_of_mem _ hf, there⟩
    · exact le_trans (by omega) above
    · intro f hf
      rcases List.mem_cons.1 hf with rfl | hf
      · exact le_trans (by omega) above
      · exact others_above f hf

theorem sums_gather (h : f ∈ seen) : Sums seen (gather seen f) := by
  have here : f ∈ alike seen f := mem_alike.2 ⟨h, rfl⟩
  obtain ⟨from_, -, above⟩ := foldl_higher (alike seen f) f.kind
  refine ⟨⟨f, h, rfl⟩, ?_, above, rfl⟩
  rcases from_ with same | ⟨d, hd, same⟩
  · exact ⟨f, here, same.symm⟩
  · exact ⟨d, hd, same⟩

theorem tabulates_gather (findings : List Finding) :
    Tabulates findings ((distinct findings).map (gather findings)) := by
  have ways : ((distinct findings).map (gather findings)).map (·.site.way)
      = (distinct findings).map (·.site.way) := List.map_map
  refine ⟨by rw [ways]; exact distinct_nodup findings, ?_, ?_⟩
  · intro f hf
    rw [ways]
    obtain ⟨f', hf', way⟩ := exists_mem_distinct hf
    exact List.mem_map.2 ⟨f', hf', way⟩
  · intro e he
    obtain ⟨f, hf, rfl⟩ := List.mem_map.1 he
    exact sums_gather (mem_of_mem_distinct hf)

end Finding

/-! ### Captured nodes and their names -/

namespace Grammar

/-- The nodes that matches capture as routines, with the kinds. -/
def captured (g : Grammar) (root : Tree) : List (Site × RoutineKind) :=
  (Pattern.matchesIn g.routines root).flatMap Finding.routinesIn

/-- A match supplies a name for a routine. -/
def Supplies (g : Grammar) (source : List UInt8) (root : Tree) (s : Site) (name : String) : Prop :=
  ∃ found ∈ Pattern.matchesIn g.routines root, s ∈ (Finding.routinesIn found).map (·.1) ∧
    ∃ n ∈ Finding.namesIn found, Finding.nameAt source n = some name

/-- No two nodes captured as routines start and end at the same bytes. -/
def CapturedApart (g : Grammar) (root : Tree) : Prop :=
  ∀ m ∈ g.captured root, ∀ m' ∈ g.captured root,
    m.1.tree.label.start = m'.1.tree.label.start → m.1.tree.label.stop = m'.1.tree.label.stop →
      m.1.way = m'.1.way

instance (g : Grammar) (root : Tree) : Decidable (g.CapturedApart root) :=
  inferInstanceAs (Decidable (∀ m ∈ g.captured root, _))

end Grammar

section Captured

variable (l : Language) (source : List UInt8) {root : Tree}

theorem Finding.ofMatch?_eq {found : List (RoutineMark × Site)} {s : Site} {kind : RoutineKind}
    (h : Finding.routinesIn found = [(s, kind)]) : Finding.ofMatch? source found
      = some ⟨s, kind, (Finding.namesIn found).getLast?.bind (Finding.nameAt source)⟩ := by
  rw [ofMatch?, h]
  rfl

/-- The findings of a tree are what its matches capture. -/
theorem Language.mem_captured_iff {s : Site} {kind : RoutineKind} :
    (s, kind) ∈ l.grammar.captured root
      ↔ ∃ f ∈ Finding.all l.grammar source root, f.site = s ∧ f.kind = kind := by
  rw [Grammar.captured, List.mem_flatMap]
  constructor
  · rintro ⟨found, hfound, h⟩
    obtain ⟨rule, -, u, reads⟩ := l.exists_rule hfound
    rw [reads.routine, List.mem_singleton] at h
    cases h
    exact ⟨_, List.mem_filterMap.2 ⟨found, hfound, Finding.ofMatch?_eq source reads.routine⟩,
      rfl, rfl⟩
  · rintro ⟨f, hf, rfl, rfl⟩
    obtain ⟨found, hfound, h⟩ := List.mem_filterMap.1 hf
    obtain ⟨rule, -, u, reads⟩ := l.exists_rule hfound
    rw [Finding.ofMatch?_eq source reads.routine] at h
    cases h
    refine ⟨found, hfound, ?_⟩
    rw [reads.routine]
    exact List.mem_cons_self

/-- A name that is supplied is the name of a finding. -/
theorem Language.supplies_iff {s : Site} {name : String} :
    l.grammar.Supplies source root s name
      ↔ ∃ f ∈ Finding.all l.grammar source root, f.site = s ∧ f.name = some name := by
  constructor
  · rintro ⟨found, hfound, hs, n, hn, text⟩
    obtain ⟨rule, -, u, reads⟩ := l.exists_rule hfound
    rw [reads.routine, List.map_singleton, List.mem_singleton] at hs
    subst hs
    refine ⟨_, List.mem_filterMap.2 ⟨found, hfound, Finding.ofMatch?_eq source reads.routine⟩,
      rfl, ?_⟩
    cases named : rule.place with
    | none =>
      rw [reads.unnamed named] at hn
      cases hn
    | some place =>
      obtain ⟨-, -, -, -, m, -, -, names⟩ := reads.named place named
      rw [names, List.mem_singleton] at hn
      rw [names, ← hn]
      exact text
  · rintro ⟨f, hf, rfl, named⟩
    obtain ⟨found, hfound, h⟩ := List.mem_filterMap.1 hf
    obtain ⟨rule, -, u, reads⟩ := l.exists_rule hfound
    rw [Finding.ofMatch?_eq source reads.routine] at h
    cases h
    obtain ⟨n, last, text⟩ := Option.bind_eq_some_iff.1 named
    refine ⟨found, hfound, ?_, n, List.mem_of_getLast? last, text⟩
    rw [reads.routine]
    exact List.mem_cons_self

/-- The findings of a tree fit together where each node has at most one child in a field that gives
    names. -/
theorem Language.consistent (once : l.grammar.NamesOnce root) :
    Finding.Consistent (Finding.all l.grammar source root) where
  sites f hf f' hf' := Tree.eq_of_way (Finding.site_of_mem_all l.marksRoutine hf).1
    (Finding.site_of_mem_all l.marksRoutine hf').1
  names f hf f' hf' way name name' named named' := by
    have site := Tree.eq_of_way (Finding.site_of_mem_all l.marksRoutine hf).1
      (Finding.site_of_mem_all l.marksRoutine hf').1 way
    obtain ⟨found, hfound, hs, n, hn, text⟩ := (l.supplies_iff source).2 ⟨f, hf, rfl, named⟩
    obtain ⟨found', hfound', hs', n', hn', text'⟩ :=
      (l.supplies_iff source).2 ⟨f', hf', site.symm, named'⟩
    rw [l.name_unique once hfound hfound' hs hs' hn hn', text'] at text
    exact (Option.some.inj text).symm

end Captured

/-! ### Routines in any order -/

namespace Routine

/-- The routine of an entry. -/
def ofEntry (g : Grammar) (source : List UInt8) (e : Finding) : Routine where
  name := e.name.getD anonymous
  kind := e.kind
  span := Span.of source e.site.tree
  depth := (e.site.above.filter g.isRoutine).length
  site := e.site

/-- What may come of looking for routines: matches come in some order, they are merged in a table,
    the table is read out in some order, and what was read is sorted by place. -/
def Discovered (g : Grammar) (source : List UInt8) (root : Tree) (routines : List Routine) : Prop :=
  ∃ (delivered : List (List (RoutineMark × Site))) (entries : List Finding),
    delivered.Perm (Pattern.matchesIn g.routines root) ∧
    entries.Perm (Finding.table (delivered.filterMap (Finding.ofMatch? source))) ∧
    routines = (entries.map (ofEntry g source)).mergeSort notAfter

/-- What a list of routines should hold, by the matches alone. -/
structure Lists (g : Grammar) (source : List UInt8) (root : Tree) (routines : List Routine) :
    Prop where
  /-- Each captured node is there, once, and nothing else. -/
  once : (routines.map (·.site)).Nodup
  captured : ∀ s, s ∈ routines.map (·.site) ↔ ∃ kind, (s, kind) ∈ g.captured root
  /-- A routine has the kind of the highest rank among its matches. -/
  kind : ∀ r ∈ routines, (r.site, r.kind) ∈ g.captured root
  highest : ∀ r ∈ routines, ∀ kind, (r.site, kind) ∈ g.captured root → kind.rank ≤ r.kind.rank
  /-- It has the name that a match supplies, if one does. -/
  named : ∀ r ∈ routines, ∀ name, g.Supplies source root r.site name → r.name = name
  unnamed : ∀ r ∈ routines, (∀ name, ¬ g.Supplies source root r.site name) → r.name = anonymous
  sorted : routines.Pairwise fun a b => a.place ≤ b.place

theorem collect_eq (g : Grammar) (source : List UInt8) (findings : List Finding) :
    collect g source findings
      = (((Finding.distinct findings).map (Finding.gather findings)).map
          (ofEntry g source)).mergeSort notAfter := by
  rw [List.map_map]
  rfl

theorem sites_ofEntry (g : Grammar) (source : List UInt8) (entries : List Finding) :
    (((entries.map (ofEntry g source)).mergeSort notAfter).map (·.site)).Perm
      (entries.map (·.site)) := by
  have := (List.mergeSort_perm (entries.map (ofEntry g source)) notAfter).map (·.site)
  rwa [List.map_map] at this

/-- There is one way to sort routines that all have places of their own. -/
theorem mergeSort_eq_of_perm {routines routines' : List Routine} (order : routines.Perm routines')
    (apart : ∀ a ∈ routines, ∀ b ∈ routines, a.place = b.place → a = b) :
    routines.mergeSort notAfter = routines'.mergeSort notAfter := by
  have perm : (routines.mergeSort notAfter).Perm (routines'.mergeSort notAfter) :=
    (List.mergeSort_perm _ _).trans (order.trans (List.mergeSort_perm _ _).symm)
  refine List.Perm.eq_of_pairwise ?_ (sorted_mergeSort _) (sorted_mergeSort _) perm
  intro a b ha hb le ge
  exact apart a (List.mem_mergeSort.1 ha) b (order.mem_iff.2 (List.mem_mergeSort.1 hb))
    (le_antisymm le ge)

end Routine

section Discovered

variable (l : Language) {source : List UInt8} {root : Tree} {seen entries : List Finding}

/-- Entries with the same place are the same entry. -/
theorem Language.entries_apart (apart : l.grammar.CapturedApart root)
    (tabulates : Finding.Tabulates (Finding.all l.grammar source root) entries) :
    ∀ a ∈ entries.map (Routine.ofEntry l.grammar source),
      ∀ b ∈ entries.map (Routine.ofEntry l.grammar source), a.place = b.place → a = b := by
  intro a ha b hb place
  obtain ⟨e, he, rfl⟩ := List.mem_map.1 ha
  obtain ⟨e', he', rfl⟩ := List.mem_map.1 hb
  obtain ⟨f, hf, site⟩ := (tabulates.sums e he).site
  obtain ⟨f', hf', site'⟩ := (tabulates.sums e' he').site
  have same : e.site.tree.label.start = e'.site.tree.label.start ∧
      e.site.tree.label.stop = e'.site.tree.label.stop := Prod.ext_iff.1 (toLex_inj.1 place)
  have way := apart (e.site, f.kind) ((l.mem_captured_iff source).2 ⟨f, hf, site, rfl⟩)
    (e'.site, f'.kind) ((l.mem_captured_iff source).2 ⟨f', hf', site', rfl⟩) same.1 same.2
  rw [List.inj_on_of_nodup_map tabulates.nodup he he' way]

/-- A table of the findings of a tree, sorted, is the list of its routines. -/
theorem Language.sorted_entries (once : l.grammar.NamesOnce root)
    (apart : l.grammar.CapturedApart root) (order : (Finding.all l.grammar source root).Perm seen)
    (tabulates : Finding.Tabulates seen entries) :
    (entries.map (Routine.ofEntry l.grammar source)).mergeSort Routine.notAfter
      = Routine.all l.grammar source root := by
  have gathered := Finding.tabulates_gather (Finding.all l.grammar source root)
  have perm := gathered.perm tabulates order (l.consistent source once)
  rw [Routine.all, Routine.collect_eq]
  exact (Routine.mergeSort_eq_of_perm (perm.map _) (l.entries_apart apart gathered)).symm

/-- The routines of a table of findings are what they should be. -/
theorem Language.lists_entries (once : l.grammar.NamesOnce root)
    (tabulates : Finding.Tabulates (Finding.all l.grammar source root) entries) :
    Routine.Lists l.grammar source root
      ((entries.map (Routine.ofEntry l.grammar source)).mergeSort Routine.notAfter) := by
  have fit := l.consistent source once
  have from_entry : ∀ {r}, r ∈ (entries.map (Routine.ofEntry l.grammar source)).mergeSort
      Routine.notAfter → ∃ e ∈ entries, Routine.ofEntry l.grammar source e = r := fun h =>
    List.mem_map.1 (List.mem_mergeSort.1 h)
  have sites := Routine.sites_ofEntry l.grammar source entries
  constructor
  case once =>
    refine sites.nodup_iff.2 (List.Nodup.of_map (·.way) ?_)
    rw [List.map_map]
    exact tabulates.nodup
  case captured =>
    intro s
    rw [sites.mem_iff, List.mem_map]
    constructor
    · rintro ⟨e, he, rfl⟩
      obtain ⟨f, hf, site⟩ := (tabulates.sums e he).site
      exact ⟨f.kind, (l.mem_captured_iff source).2 ⟨f, hf, site, rfl⟩⟩
    · rintro ⟨kind, h⟩
      obtain ⟨f, hf, rfl, -⟩ := (l.mem_captured_iff source).1 h
      obtain ⟨e, he, way⟩ := List.mem_map.1 (tabulates.all f hf)
      exact ⟨e, he, ((tabulates.sums e he).site_eq fit hf way.symm).symm⟩
  case kind =>
    intro r hr
    obtain ⟨e, he, rfl⟩ := from_entry hr
    obtain ⟨f, hf, kind⟩ := (tabulates.sums e he).kind
    obtain ⟨hf, way⟩ := Finding.mem_alike.1 hf
    exact (l.mem_captured_iff source).2 ⟨f, hf, (tabulates.sums e he).site_eq fit hf way, kind⟩
  case highest =>
    intro r hr kind captured
    obtain ⟨e, he, rfl⟩ := from_entry hr
    obtain ⟨f, hf, site, rfl⟩ := (l.mem_captured_iff source).1 captured
    exact (tabulates.sums e he).highest f (Finding.mem_alike.2 ⟨hf, congrArg Site.way site⟩)
  case named =>
    intro r hr name supplied
    obtain ⟨e, he, rfl⟩ := from_entry hr
    obtain ⟨f, hf, site, named⟩ := (l.supplies_iff source).1 supplied
    have here := Finding.mem_alike.2 ⟨hf, congrArg Site.way site⟩
    exact congrArg (Option.getD · anonymous) ((tabulates.sums e he).name_of_mem fit here named)
  case unnamed =>
    intro r hr unsupplied
    obtain ⟨e, he, rfl⟩ := from_entry hr
    refine congrArg (Option.getD · anonymous) ((tabulates.sums e he).name_eq_none fun f hf => ?_)
    obtain ⟨hf, way⟩ := Finding.mem_alike.1 hf
    by_contra named
    obtain ⟨name, named⟩ := Option.ne_none_iff_exists'.1 named
    have site := (tabulates.sums e he).site_eq fit hf way
    exact unsupplied name ((l.supplies_iff source).2 ⟨f, hf, site, named⟩)
  case sorted => exact Routine.sorted_mergeSort _

end Discovered

/-- Looking for routines has one result, whatever the order in which the matches come and the table
    is read: each captured node once, with the highest kind among its matches and the name that one
    of them supplies, sorted by place. -/
theorem discovered_iff_eq_all (l : Language) (source : List UInt8) {root : Tree}
    (once : l.grammar.NamesOnce root) (apart : l.grammar.CapturedApart root) :
    (∀ routines, Routine.Discovered l.grammar source root routines
      ↔ routines = Routine.all l.grammar source root) ∧
    Routine.Lists l.grammar source root (Routine.all l.grammar source root) := by
  refine ⟨fun routines => ⟨?_, ?_⟩, ?_⟩
  · rintro ⟨delivered, entries, order, read, rfl⟩
    exact l.sorted_entries once apart (order.filterMap _).symm
      ((Finding.tabulates_table _).read read)
  · rintro rfl
    exact ⟨_, _, List.Perm.refl _, List.Perm.refl _,
      (l.sorted_entries once apart (List.Perm.refl _) (Finding.tabulates_table _)).symm⟩
  · rw [Routine.all, Routine.collect_eq]
    exact l.lists_entries once (Finding.tabulates_gather _)

open CodeMetrics.Tree in
/-- A class with a method that binds a lambda: both are found by two patterns, with two kinds or
    with and without a name. -/
def methodBindingLambda : Tree :=
  partAt "module" none 0 34
    [partAt "class_definition" none 0 33
      [partAt "identifier" (some "name") 6 7 [],
       partAt "block" (some "body") 11 33
        [partAt "function_definition" none 11 33
          [partAt "identifier" (some "name") 15 16 [],
           partAt "parameters" (some "parameters") 16 18 [],
           partAt "block" (some "body") 20 33
            [partAt "expression_statement" none 20 33
              [partAt "assignment" none 20 33
                [partAt "identifier" (some "left") 20 21 [],
                 partAt "lambda" (some "right") 24 33
                  [partAt "integer" (some "body") 32 33 []]]]]]]]]

theorem discovered_iff_eq_all_methodBindingLambda :
    let source := "class A:\n  def f(): g = lambda: 1\n".toUTF8.toList
    let matched := Pattern.matchesIn Grammar.pythonRoutines methodBindingLambda
    let backwards := Finding.table (matched.reverse.filterMap (Finding.ofMatch? source))
    Grammar.python.NamesOnce methodBindingLambda ∧
      Grammar.python.CapturedApart methodBindingLambda ∧
      matched.length = 4 ∧
      backwards.map (fun e => (e.kind, e.name)) = [(.lambda, some "g"), (.method, some "f")] ∧
      (backwards.map (Routine.ofEntry .python source)).mergeSort Routine.notAfter
        = Routine.all .python source methodBindingLambda ∧
      Routine.Lists .python source methodBindingLambda
        (Routine.all .python source methodBindingLambda) := by
  intro source matched backwards
  have once : Grammar.python.NamesOnce methodBindingLambda := by decide +kernel
  have apart : Grammar.python.CapturedApart methodBindingLambda := by decide +kernel
  have entries : backwards.map (fun e => (e.kind, e.name))
      = [(.lambda, some "g"), (.method, some "f")] := by decide +kernel
  obtain ⟨same, lists⟩ := discovered_iff_eq_all .python source once apart
  have found : Routine.Discovered .python source methodBindingLambda
      ((backwards.map (Routine.ofEntry .python source)).mergeSort Routine.notAfter) :=
    ⟨matched.reverse, backwards, List.reverse_perm _, List.Perm.refl _, rfl⟩
  exact ⟨once, apart, by decide +kernel, entries, (same _).1 found, lists⟩

end CodeMetrics
