import CodeMetrics.Language.Grammar

/-! TypeScript, with and without embedded markup: both dialects have the same node kinds. -/

namespace CodeMetrics.Grammar

/-- Where routines are declared. -/
def typeScriptRoutines : List (Pattern RoutineMark) :=
  [.named "function_declaration" "identifier" .function,
   .named "generator_function_declaration" "identifier" .function,
   .node none ["method_definition"] (some (.routine .method))
    [.node (some "name") [] (some .name) []],
   .bound "variable_declarator" "name" "value"
    ["arrow_function", "function_expression", "generator_function"],
   .bare "function_expression" .lambda,
   .bare "generator_function" .lambda,
   .bare "arrow_function" .lambda]

/-- The grammar of the language. -/
def typeScript : Grammar where
  routines := typeScriptRoutines
  commentKinds := ["comment"]
  constructs :=
    [("if_statement", .branch), ("else_clause", .otherwise), ("for_statement", .loop),
     ("for_in_statement", .loop), ("while_statement", .loop), ("do_statement", .loop),
     ("switch_statement", .switch), ("switch_case", .case), ("switch_default", .case),
     ("catch_clause", .handler), ("ternary_expression", .ternary), ("return_statement", .exit),
     ("break_statement", .jump), ("continue_statement", .jump)]
  logicalOperators :=
    [("binary_expression", "&&"), ("binary_expression", "||"), ("binary_expression", "??")]
  guardFields := []
  routineKinds :=
    ["function_declaration", "generator_function_declaration", "function_expression",
     "generator_function", "arrow_function", "method_definition"]
  statementKinds :=
    ["expression_statement", "variable_declaration", "lexical_declaration", "return_statement",
     "if_statement", "for_statement", "for_in_statement", "while_statement", "do_statement",
     "switch_statement", "try_statement", "throw_statement", "break_statement",
     "continue_statement", "labeled_statement", "debugger_statement", "with_statement",
     "import_statement", "function_declaration", "generator_function_declaration",
     "class_declaration", "abstract_class_declaration", "interface_declaration",
     "type_alias_declaration", "enum_declaration"]
  operandKinds :=
    ["identifier", "property_identifier", "private_property_identifier",
     "shorthand_property_identifier", "shorthand_property_identifier_pattern",
     "statement_identifier", "type_identifier", "predefined_type", "string", "template_string",
     "regex", "number", "true", "false", "null", "undefined", "this", "super"]
  ignoredTokens := [")", "]", "\x7d", ",", ";"]
  labelKinds := ["statement_identifier"]
  groupedParameterKinds := []
  parameterSeparators := ["decorator"]
  assignmentKinds :=
    ["assignment_expression", "augmented_assignment_expression", "update_expression"]
  initializerFields := [("variable_declarator", "value"), ("public_field_definition", "value")]
  callKinds := ["call_expression", "new_expression"]
  comparisonOperators :=
    [("binary_expression", "=="), ("binary_expression", "!="), ("binary_expression", "==="),
     ("binary_expression", "!=="), ("binary_expression", "<"), ("binary_expression", "<="),
     ("binary_expression", ">"), ("binary_expression", ">="), ("binary_expression", "instanceof"),
     ("binary_expression", "in")]
  classKinds := ["class_declaration", "abstract_class_declaration", "class"]
  docstrings := false
  tailExpressions := false

end CodeMetrics.Grammar
