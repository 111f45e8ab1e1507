import CodeMetrics.Language.Descriptor
import CodeMetrics.Report.File

/-! Measuring the bytes of a file. The parser is not part of the library: whoever holds a file also
    holds the tree that a parser made of it, if it made one. -/

namespace CodeMetrics

/-- A file as it was parsed: its source, its tree and the syntax errors in it. -/
structure ParsedFile where
  source : List UInt8
  tree : Tree
  faults : List SyntaxFault

namespace ParsedFile

/-- Decodes the bytes of a file and takes the tree made of them. -/
def of (language : Language) (bytes : List UInt8) (tree : Option Tree) :
    Except Error ParsedFile :=
  match decodeSource bytes with
  | .error fault => .error (.parseFailure (.undecodable fault))
  | .ok (source, _) =>
    match tree with
    | none => .error (.parseFailure (.noTree language.grammarName))
    | some tree => .ok ⟨source, tree, SyntaxFault.collect source tree⟩

/-- The measures of a parsed file. -/
def measures (language : Language) (p : ParsedFile) : FileMeasures :=
  FileMeasures.of language.grammar p.source p.tree

/-- The report entry of a parsed file. -/
def report (path : String) (language : Language) (p : ParsedFile) : FileReport :=
  FileReport.measured path language (p.measures language) p.faults

end ParsedFile

end CodeMetrics
