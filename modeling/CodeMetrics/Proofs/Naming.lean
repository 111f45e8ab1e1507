import CodeMetrics.Proofs.Routines

/-! Where routines get their names.

    The patterns of every grammar are of a few forms: a routine alone, a routine with its own name in
    a field, a lambda beside the name that it is bound to, and any of these inside other nodes. So
    a pattern can be read as a rule that tells the kinds of its routines and where the name stands.
    Two rules for routines of one kind never take names from different places. Where each node has
    at most one child in a field that gives names, no routine is given two names. -/

namespace CodeMetrics

/-- Where the name of a routine stands: in a child of it, or in a child of the node around it. -/
inductive Naming where
  | own
  | beside
deriving DecidableEq

/-- The way to the node that has the name as a child. -/
def Naming.holderWay : Naming → List ℕ → List ℕ
  | .own, way => way
  | .beside, way => way.tail

/-- The place of a name: the kinds of the nodes that have it, and the field. -/
structure NamePlace where
  naming : Naming
  holders : List String
  field : String
deriving DecidableEq

/-- What a pattern finds: routines of some kinds, and maybe a name. -/
structure Rule where
  kinds : List String
  kind : RoutineKind
  place : Option NamePlace
deriving DecidableEq

namespace Pattern

/-- The rule that a pattern stands for. -/
def rule? : Pattern RoutineMark → Option Rule
  | .node _ kinds (some (.routine kind)) [] => some ⟨kinds, kind, none⟩
  | .node _ kinds (some (.routine kind)) [.node (some field) _ (some .name) []] =>
    some ⟨kinds, kind, some ⟨.own, kinds, field⟩⟩
  | .node _ holders none
      [.node (some field) _ (some .name) [], .node _ kinds (some (.routine kind)) []] =>
    some ⟨kinds, kind, some ⟨.beside, holders, field⟩⟩
  | .node _ _ none [p] => rule? p
  | _ => none

/-! ### What a match of a rule marks -/

variable {μ : Type} {s : Site} {sites : List Site} {found : List (μ × Site)}

/-- A match at a site has the mark of the pattern there, and a match of its parts below. -/
theorem mem_matchesAt {field : Option String} {kinds : List String} {mark : Option μ}
    {parts : List (Pattern μ)} (h : found ∈ (Pattern.node field kinds mark parts).matchesAt s) :
    accepts field kinds s.tree = true ∧
      ∃ below ∈ matchesAmong parts s.children, found = mark.toList.map (·, s) ++ below := by
  rw [matchesAt] at h
  split at h
  · next accepted =>
    obtain ⟨below, hbelow, rfl⟩ := List.mem_map.1 h
    refine ⟨accepted, below, hbelow, ?_⟩
    cases mark <;> rfl
  · cases h

/-- A match of some patterns is a match of the first at a site and one of the others behind it. -/
theorem mem_matchesAmong {p : Pattern μ} {ps : List (Pattern μ)}
    (h : found ∈ matchesAmong (p :: ps) sites) :
    ∃ u ∈ sites, ∃ first ∈ p.matchesAt u, ∃ later, (∀ v ∈ later, v ∈ sites) ∧
      ∃ others ∈ matchesAmong ps later, found = first ++ others := by
  rw [matchesAmong, List.mem_flatMap] at h
  obtain ⟨⟨u, later⟩, split, h⟩ := h
  obtain ⟨first, hfirst, h⟩ := List.mem_flatMap.1 h
  obtain ⟨others, hothers, rfl⟩ := List.mem_map.1 h
  obtain ⟨hu, hlater⟩ := mem_splits split
  exact ⟨u, hu, first, hfirst, later, hlater, others, hothers, rfl⟩

theorem eq_nil_of_mem_matchesAmong (h : found ∈ matchesAmong [] sites) : found = [] := by
  rw [matchesAmong] at h
  exact List.mem_singleton.1 h

/-- A match of a pattern without parts is its mark. -/
theorem eq_of_mem_matchesAt_leaf {field : Option String} {kinds : List String} {mark : μ}
    (h : found ∈ (Pattern.node field kinds (some mark) []).matchesAt s) :
    accepts field kinds s.tree = true ∧ found = [(mark, s)] := by
  obtain ⟨accepted, below, hbelow, rfl⟩ := mem_matchesAt h
  obtain rfl := eq_nil_of_mem_matchesAmong hbelow
  exact ⟨accepted, rfl⟩

theorem hasField_of_accepts {field : String} {kinds : List String} {t : Tree}
    (h : accepts (some field) kinds t = true) : t.hasField field = true := by
  simp only [accepts, Bool.and_eq_true, Option.all_some] at h
  exact h.1.2

end Pattern

/-- A match marks what a rule finds: one routine of its kinds, and where the rule has a place for the
    name, a name there. -/
structure Rule.Reads (root : Tree) (rule : Rule) (found : List (RoutineMark × Site)) (u : Site) :
    Prop where
  site : u ∈ root.sites
  accepted : Pattern.accepts none rule.kinds u.tree = true
  routine : Finding.routinesIn found = [(u, rule.kind)]
  unnamed : rule.place = none → Finding.namesIn found = []
  named : ∀ place, rule.place = some place → ∃ h ∈ root.sites,
    h.way = place.naming.holderWay u.way ∧ Pattern.accepts none place.holders h.tree = true ∧
      ∃ n ∈ h.children, n.tree.hasField place.field = true ∧ Finding.namesIn found = [n]

theorem Site.way_of_mem_children {s u : Site} (h : u ∈ s.children) : s.way = u.way.tail := by
  obtain ⟨⟨c, i⟩, -, rfl⟩ := List.mem_map.1 h
  rfl

theorem Pattern.reads_of_rule? {root : Tree} (p : Pattern RoutineMark) :
    ∀ {rule : Rule}, p.rule? = some rule → ∀ {s : Site}, s ∈ root.sites →
      ∀ found ∈ p.matchesAt s, ∃ u, rule.Reads root found u := by
  fun_induction rule? p with
  | case1 field kinds kind =>
    rintro _ ⟨⟩ s hs found h
    obtain ⟨accepted, rfl⟩ := eq_of_mem_matchesAt_leaf h
    exact ⟨s, hs, accepts_kinds accepted, rfl, fun _ => rfl, by rintro _ ⟨⟩⟩
  | case2 =>
    rintro _ ⟨⟩ s hs found h
    obtain ⟨accepted, below, hbelow, rfl⟩ := mem_matchesAt h
    obtain ⟨n, hn, first, hfirst, later, -, others, hothers, rfl⟩ := mem_matchesAmong hbelow
    obtain ⟨named, rfl⟩ := eq_of_mem_matchesAt_leaf hfirst
    obtain rfl := eq_nil_of_mem_matchesAmong hothers
    refine ⟨s, hs, accepts_kinds accepted, rfl, by rintro ⟨⟩, ?_⟩
    rintro _ ⟨⟩
    exact ⟨s, hs, rfl, accepts_kinds accepted, n, hn, hasField_of_accepts named, rfl⟩
  | case3 =>
    rintro _ ⟨⟩ s hs found h
    obtain ⟨accepted, below, hbelow, rfl⟩ := mem_matchesAt h
    obtain ⟨n, hn, first, hfirst, later, hlater, others, hothers, rfl⟩ := mem_matchesAmong hbelow
    obtain ⟨named, rfl⟩ := eq_of_mem_matchesAt_leaf hfirst
    obtain ⟨u, hu, second, hsecond, _, -, rest, hrest, rfl⟩ := mem_matchesAmong hothers
    obtain ⟨found, rfl⟩ := eq_of_mem_matchesAt_leaf hsecond
    obtain rfl := eq_nil_of_mem_matchesAmong hrest
    have hu := hlater u hu
    refine ⟨u, Tree.mem_sites_of_mem_children hs hu, accepts_kinds found, rfl, by rintro ⟨⟩, ?_⟩
    rintro _ ⟨⟩
    exact ⟨s, hs, Site.way_of_mem_children hu, accepts_kinds accepted, n, hn,
      hasField_of_accepts named, rfl⟩
  | case4 field kinds p ih =>
    intro rule reads s hs found h
    obtain ⟨-, below, hbelow, rfl⟩ := mem_matchesAt h
    obtain ⟨u, hu, first, hfirst, later, -, others, hothers, rfl⟩ := mem_matchesAmong hbelow
    obtain rfl := eq_nil_of_mem_matchesAmong hothers
    rw [List.append_nil]
    exact ih reads (Tree.mem_sites_of_mem_children hs hu) first hfirst
  | case5 =>
    rintro _ ⟨⟩

/-! ### The rules of a grammar -/

namespace Grammar

/-- The rules that the patterns of a grammar stand for. -/
def rules (g : Grammar) : List Rule := g.routines.filterMap Pattern.rule?

/-- The places that names are taken from. -/
def namePlaces (g : Grammar) : List NamePlace := g.rules.filterMap (·.place)

/-- Each node has at most one child in a field that gives names. -/
def NamesOnce (g : Grammar) (root : Tree) : Prop :=
  ∀ s ∈ root.sites, ∀ place ∈ g.namePlaces, Pattern.accepts none place.holders s.tree = true →
    (s.tree.childrenIn place.field).length ≤ 1

instance (g : Grammar) (root : Tree) : Decidable (g.NamesOnce root) :=
  inferInstanceAs (Decidable (∀ s ∈ root.sites, _))

end Grammar

/-- Whether two rules ask for certain kinds, and take names from one place if they share a kind. -/
def Rule.agrees (a b : Rule) : Bool :=
  !a.kinds.isEmpty && !b.kinds.isEmpty &&
    ((a.kinds.all fun kind => !b.kinds.contains kind) || a.place.isNone || b.place.isNone ||
      a.place == b.place)

theorem Language.rule?_isSome (l : Language) : ∀ p ∈ l.grammar.routines, p.rule?.isSome = true := by
  cases l <;> decide

theorem Language.rules_agree (l : Language) :
    ∀ a ∈ l.grammar.rules, ∀ b ∈ l.grammar.rules, a.agrees b = true := by
  cases l <;> decide

/-- Every match is one of a rule. -/
theorem Language.exists_rule (l : Language) {root : Tree} {found : List (RoutineMark × Site)}
    (h : found ∈ Pattern.matchesIn l.grammar.routines root) :
    ∃ rule ∈ l.grammar.rules, ∃ u, rule.Reads root found u := by
  rw [Pattern.matchesIn, List.mem_flatMap] at h
  obtain ⟨s, hs, h⟩ := h
  obtain ⟨p, hp, h⟩ := List.mem_flatMap.1 h
  obtain ⟨rule, hrule⟩ := Option.isSome_iff_exists.1 (l.rule?_isSome p hp)
  obtain ⟨u, reads⟩ := p.reads_of_rule? hrule hs found h
  exact ⟨rule, List.mem_filterMap.2 ⟨p, hp, hrule⟩, u, reads⟩

/-! ### One name for each routine -/

/-- Children in a field that holds at most one are the same. -/
theorem Site.eq_of_field {h n n' : Site} {field : String}
    (one : (h.tree.childrenIn field).length ≤ 1) (hn : n ∈ h.children)
    (hfield : n.tree.hasField field = true) (hn' : n' ∈ h.children)
    (hfield' : n'.tree.hasField field = true) : n = n' := by
  have trees : h.children.map (·.tree) = h.tree.children := by
    rw [Site.children, List.map_map]
    exact List.zipIdx_map_fst 0 _
  have length : (h.children.filter fun u => u.tree.hasField field).length ≤ 1 := by
    rw [Tree.childrenIn, ← trees, List.filter_map, List.length_map] at one
    exact one
  have mem : n ∈ h.children.filter fun u => u.tree.hasField field :=
    List.mem_filter.2 ⟨hn, hfield⟩
  have mem' : n' ∈ h.children.filter fun u => u.tree.hasField field :=
    List.mem_filter.2 ⟨hn', hfield'⟩
  generalize h.children.filter (fun u => u.tree.hasField field) = those at length mem mem'
  cases those with
  | nil => cases mem
  | cons only rest =>
    obtain rfl : rest = [] := by
      rw [List.length_cons] at length
      exact List.length_eq_zero_iff.1 (by omega)
    exact (List.mem_singleton.1 mem).trans (List.mem_singleton.1 mem').symm

theorem Rule.place_eq {a b : Rule} (agree : a.agrees b = true) {t : Tree}
    (ha : Pattern.accepts none a.kinds t = true) (hb : Pattern.accepts none b.kinds t = true)
    {place place' : NamePlace} (named : a.place = some place) (named' : b.place = some place') :
    place = place' := by
  simp only [Rule.agrees, Bool.and_eq_true, Bool.not_eq_true'] at agree
  obtain ⟨⟨some_kind, some_kind'⟩, either⟩ := agree
  simp only [Pattern.accepts, some_kind, some_kind', Bool.false_or, Bool.and_eq_true] at ha hb
  have shared : (a.kinds.all fun kind => !b.kinds.contains kind) = false := by
    rw [← Bool.not_eq_true, List.all_eq_true]
    intro apart
    have := apart t.kind (List.contains_iff_mem.1 ha.2)
    rw [hb.2] at this
    cases this
  rw [shared, named, named'] at either
  simpa using either

/-- No routine is given names at two nodes. -/
theorem Language.name_unique (l : Language) {root : Tree} (once : l.grammar.NamesOnce root)
    {found found' : List (RoutineMark × Site)}
    (h : found ∈ Pattern.matchesIn l.grammar.routines root)
    (h' : found' ∈ Pattern.matchesIn l.grammar.routines root) {u : Site}
    (hu : u ∈ (Finding.routinesIn found).map (·.1))
    (hu' : u ∈ (Finding.routinesIn found').map (·.1))
    {n n' : Site} (hn : n ∈ Finding.namesIn found) (hn' : n' ∈ Finding.namesIn found') :
    n = n' := by
  obtain ⟨a, ha, v, reads⟩ := l.exists_rule h
  obtain ⟨b, hb, v', reads'⟩ := l.exists_rule h'
  rw [reads.routine, List.map_singleton, List.mem_singleton] at hu
  rw [reads'.routine, List.map_singleton, List.mem_singleton] at hu'
  subst hu
  subst hu'
  cases named : a.place with
  | none => rw [reads.unnamed named] at hn; cases hn
  | some place =>
    cases named' : b.place with
    | none => rw [reads'.unnamed named'] at hn'; cases hn'
    | some place' =>
      obtain rfl :=
        Rule.place_eq (l.rules_agree a ha b hb) reads.accepted reads'.accepted named named'
      obtain ⟨holder, hholder, way, accepted, m, hm, field, names⟩ := reads.named place named
      obtain ⟨holder', hholder', way', -, m', hm', field', names'⟩ := reads'.named place named'
      obtain rfl := Tree.eq_of_way hholder hholder' (way.trans way'.symm)
      rw [names, List.mem_singleton] at hn
      rw [names', List.mem_singleton] at hn'
      have one := once holder hholder place (List.mem_filterMap.2 ⟨a, ha, named⟩) accepted
      rw [hn, hn']
      exact Site.eq_of_field one hm field hm' field'

end CodeMetrics
