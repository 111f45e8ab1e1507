import CodeMetrics.Language.Grammar

/-! Rust. Functions in an implementation or a trait are methods; a block may end in an expression
    that is a statement in all but its semicolon. -/

namespace CodeMetrics.Grammar

/-- Where routines are declared. -/
def rustRoutines : List (Pattern RoutineMark) :=
  [.named "function_item" "identifier" .function,
   .inside "impl_item" "declaration_list" [.named "function_item" "identifier" .method],
   .inside "trait_item" "declaration_list" [.named "function_item" "identifier" .method],
   .bound "let_declaration" "pattern" "value" ["closure_expression"],
   .bare "closure_expression" .lambda]

/-- The grammar of the language. -/
def rust : Grammar where
  routines := rustRoutines
  commentKinds := ["line_comment", "block_comment"]
  constructs :=
    [("if_expression", .branch), ("else_clause", .otherwise), ("for_expression", .loop),
     ("while_expression", .loop), ("loop_expression", .loop), ("match_expression", .switch),
     ("match_arm", .case), ("try_expression", .tryOperator), ("return_expression", .exit),
     ("break_expression", .jump), ("continue_expression", .jump)]
  logicalOperators := [("binary_expression", "&&"), ("binary_expression", "||")]
  guardFields := [("match_pattern", "condition")]
  routineKinds := ["function_item", "closure_expression"]
  statementKinds :=
    ["expression_statement", "let_declaration", "function_item", "struct_item", "enum_item",
     "union_item", "impl_item", "trait_item", "const_item", "static_item", "type_item", "mod_item",
     "use_declaration", "extern_crate_declaration", "macro_definition"]
  operandKinds :=
    ["identifier", "field_identifier", "shorthand_field_identifier", "type_identifier",
     "primitive_type", "string_literal", "raw_string_literal", "char_literal", "integer_literal",
     "float_literal", "boolean_literal", "lifetime", "metavariable", "self", "crate", "super"]
  ignoredTokens := [")", "]", "\x7d", ",", ";"]
  labelKinds := ["label"]
  groupedParameterKinds := []
  parameterSeparators := ["attribute_item"]
  assignmentKinds := ["assignment_expression", "compound_assignment_expr"]
  initializerFields := [("let_declaration", "value")]
  callKinds := ["call_expression", "macro_invocation"]
  comparisonOperators :=
    [("binary_expression", "=="), ("binary_expression", "!="), ("binary_expression", "<"),
     ("binary_expression", "<="), ("binary_expression", ">"), ("binary_expression", ">=")]
  classKinds := ["impl_item", "trait_item"]
  docstrings := false
  tailExpressions := true

end CodeMetrics.Grammar
