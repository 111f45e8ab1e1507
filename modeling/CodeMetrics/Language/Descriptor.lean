import CodeMetrics.Language.Basic
import CodeMetrics.Language.Go
import CodeMetrics.Language.Python
import CodeMetrics.Language.Rust
import CodeMetrics.Language.TypeScript

/-! Every language has its grammar. -/

namespace CodeMetrics

/-- The grammar of a language. -/
def Language.grammar : Language → Grammar
  | .go => .go
  | .python => .python
  | .rust => .rust
  | .typeScript | .tsx => .typeScript

end CodeMetrics
