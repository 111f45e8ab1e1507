import CodeMetrics.Error
import CodeMetrics.Language.Basic

/-! The languages a user asks for. Naming none, or `all`, asks for all of them. -/

namespace CodeMetrics

/-- Some languages by family, and whether they were asked for by name. -/
structure Selection where
  /-- Families, in the order of languages. -/
  families : List Language
  explicit : Bool
deriving DecidableEq, Repr

namespace Selection

/-- The families of some languages, in order and each once. -/
def familiesOf (named : List Language) : List Language :=
  Language.all.filter fun l => l == l.family && named.any (·.family == l)

/-- All languages. -/
def all : Selection := ⟨familiesOf Language.all, false⟩

/-- The languages that a list of names asks for, up to the first `all`; `none` if there is one. -/
def named : List String → Except Error (Option (List Language))
  | [] => .ok (some [])
  | name :: rest =>
    let name := trimBlank name
    if lowerAscii name == "all" then .ok none
    else match Language.ofName? name with
      | none => .error (.configuration (.unsupportedLanguage name))
      | some l => (named rest).map fun more => more.map (l :: ·)

/-- The languages that a list of names asks for. -/
def parse (names : List String) : Except Error Selection :=
  (named names).map fun
    | none | some [] => all
    | some languages => ⟨familiesOf languages, true⟩

/-- Whether a language is among those asked for. -/
def includes (s : Selection) (l : Language) : Bool := s.families.contains l.family

/-- The languages asked for, by grammar. -/
def grammars (s : Selection) : List Language := Language.all.filter s.includes

/-- A language to measure by, if it was asked for. -/
def get (s : Selection) (l : Language) : Except Error Language :=
  if s.includes l then .ok l else .error (.grammarLoad l.grammarName "language not selected")

end Selection

end CodeMetrics
