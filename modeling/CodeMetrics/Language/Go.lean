import CodeMetrics.Language.Grammar

/-! Go. A method belongs to the type of its receiver, so no node encloses the methods of a type. -/

namespace CodeMetrics.Grammar

/-- Where routines are declared. -/
def goRoutines : List (Pattern RoutineMark) :=
  [.named "function_declaration" "identifier" .function,
   .named "method_declaration" "field_identifier" .method,
   .bare "func_literal" .lambda]

/-- The grammar of the language. -/
def go : Grammar where
  routines := goRoutines
  commentKinds := ["comment"]
  constructs :=
    [("if_statement", .branch), ("for_statement", .loop), ("expression_switch_statement", .switch),
     ("type_switch_statement", .switch), ("select_statement", .switch), ("expression_case", .case),
     ("type_case", .case), ("communication_case", .case), ("default_case", .case),
     ("return_statement", .exit), ("break_statement", .jump), ("continue_statement", .jump),
     ("goto_statement", .jump)]
  logicalOperators := [("binary_expression", "&&"), ("binary_expression", "||")]
  guardFields := []
  routineKinds := ["function_declaration", "method_declaration", "func_literal"]
  statementKinds :=
    ["expression_statement", "send_statement", "inc_statement", "dec_statement",
     "assignment_statement", "short_var_declaration", "return_statement", "go_statement",
     "defer_statement", "if_statement", "for_statement", "expression_switch_statement",
     "type_switch_statement", "select_statement", "labeled_statement", "fallthrough_statement",
     "break_statement", "continue_statement", "goto_statement", "var_declaration",
     "const_declaration", "type_declaration"]
  operandKinds :=
    ["identifier", "field_identifier", "type_identifier", "package_identifier", "label_name",
     "interpreted_string_literal", "raw_string_literal", "rune_literal", "int_literal",
     "float_literal", "imaginary_literal", "true", "false", "nil", "iota"]
  ignoredTokens := [")", "]", "\x7d", ",", ";", "\n", "\x00"]
  labelKinds := ["label_name"]
  groupedParameterKinds := ["parameter_declaration"]
  parameterSeparators := []
  assignmentKinds :=
    ["assignment_statement", "short_var_declaration", "inc_statement", "dec_statement"]
  initializerFields := [("var_spec", "value"), ("const_spec", "value")]
  callKinds := ["call_expression"]
  comparisonOperators :=
    [("binary_expression", "=="), ("binary_expression", "!="), ("binary_expression", "<"),
     ("binary_expression", "<="), ("binary_expression", ">"), ("binary_expression", ">=")]
  classKinds := []
  docstrings := false
  tailExpressions := false

end CodeMetrics.Grammar
