import CodeMetrics.Language.Grammar

/-! Python. A function right in the body of a class, decorated or not, is a method; a string that
    stands alone as a statement documents what it stands in. -/

namespace CodeMetrics.Grammar

/-- Where routines are declared. -/
def pythonRoutines : List (Pattern RoutineMark) :=
  [.named "function_definition" "identifier" .function,
   .inside "class_definition" "block" [.named "function_definition" "identifier" .method],
   .inside "class_definition" "block"
    [.node none ["decorated_definition"] none
      [.namedIn (some "definition") "function_definition" "identifier" .method]],
   .bound "assignment" "left" "right" ["lambda"],
   .bare "lambda" .lambda]

/-- The grammar of the language. -/
def python : Grammar where
  routines := pythonRoutines
  commentKinds := ["comment"]
  constructs :=
    [("if_statement", .branch), ("elif_clause", .elseIf), ("else_clause", .otherwise),
     ("for_statement", .loop), ("while_statement", .loop), ("match_statement", .switch),
     ("case_clause", .case), ("except_clause", .handler), ("except_group_clause", .handler),
     ("conditional_expression", .ternary), ("if_clause", .guard), ("return_statement", .exit)]
  logicalOperators := [("boolean_operator", "and"), ("boolean_operator", "or")]
  guardFields := []
  routineKinds := ["function_definition", "lambda"]
  statementKinds :=
    ["expression_statement", "return_statement", "pass_statement", "break_statement",
     "continue_statement", "if_statement", "for_statement", "while_statement", "try_statement",
     "with_statement", "raise_statement", "assert_statement", "import_statement",
     "import_from_statement", "future_import_statement", "global_statement", "nonlocal_statement",
     "delete_statement", "print_statement", "exec_statement", "type_alias_statement",
     "match_statement", "function_definition", "class_definition"]
  operandKinds :=
    ["identifier", "string", "concatenated_string", "integer", "float", "true", "false", "none",
     "ellipsis"]
  ignoredTokens := [")", "]", "\x7d", ",", ";"]
  labelKinds := []
  groupedParameterKinds := []
  parameterSeparators := ["keyword_separator", "positional_separator"]
  assignmentKinds := ["augmented_assignment", "named_expression"]
  initializerFields := [("assignment", "right")]
  callKinds := ["call"]
  comparisonOperators :=
    [("comparison_operator", "=="), ("comparison_operator", "!="), ("comparison_operator", "<>"),
     ("comparison_operator", "<"), ("comparison_operator", "<="), ("comparison_operator", ">"),
     ("comparison_operator", ">="), ("comparison_operator", "in"),
     ("comparison_operator", "not in"), ("comparison_operator", "is"),
     ("comparison_operator", "is not")]
  classKinds := ["class_definition"]
  docstrings := true
  tailExpressions := false

end CodeMetrics.Grammar
