import LiveHighlight.Language.Words

/-! A grammar of Go, for its declarations, statements and expressions in their usual forms, and the
highlight query. -/

namespace LiveHighlight.Go

open Rule

/-- Words that name nothing. -/
def keywords : List String := ["break", "case", "chan", "const", "continue", "default", "defer",
  "else", "fallthrough", "for", "func", "go", "goto", "if", "import", "interface", "map", "package",
  "range", "return", "select", "struct", "switch", "type", "var", "true", "false", "nil", "iota"]

def types : List (String × Rule) := [
  ("type", oneOf [
    node "pointer_type" (seq [literal "*", ref "type"]),
    node "slice_type" (seq [literal "[", literal "]", field "element" (ref "type")]),
    node "array_type" (seq [literal "[", field "length" (ref "expression"), literal "]",
      field "element" (ref "type")]),
    node "map_type" (seq [literal "map", literal "[", field "key" (ref "type"), literal "]",
      field "value" (ref "type")]),
    node "channel_type" (seq [literal "chan", field "value" (ref "type")]),
    node "struct_type" (seq [literal "struct", node "field_declaration_list" (seq [literal "\x7b",
      many (both (ref "field") (optional (literal ";"))), literal "\x7d"])]),
    node "interface_type" (seq [literal "interface", literal "\x7b",
      many (both (ref "method") (optional (literal ";"))), literal "\x7d"]),
    node "function_type" (seq [literal "func", ref "signature"]),
    node "qualified_type" (seq [field "package" (word "package_identifier"), literal ".",
      field "name" (word "type_identifier")]),
    word "type_identifier"]),
  ("field", node "field_declaration" (seq [
    field "name" (separated (word "field_identifier") (literal ",")),
    field "type" (inRow (ref "type"))])),
  ("method", node "method_elem" (seq [field "name" (word "field_identifier"), ref "signature"])),
  ("parameter", oneOf [
    node "parameter_declaration" (seq [
      field "name" (separated (word "identifier") (literal ",")), field "type" (ref "type")]),
    node "parameter_declaration" (field "type" (ref "type"))]),
  ("parameters", node "parameter_list" (seq [literal "(", commas (ref "parameter"), literal ")"])),
  ("signature", seq [field "parameters" (ref "parameters"),
    optional (inRow (field "result" (either (ref "parameters") (ref "type"))))])]

def expressions : List (String × Rule) :=
  levels "binary_expression" "expression" (ref "operand") [["||"], ["&&"],
    ["==", "!=", "<=", ">=", "<", ">"], ["+", "-", "|", "^"],
    ["*", "/", "%", "<<", ">>", "&^", "&"]] ++ [
  ("expressions", node "expression_list" (separated (ref "expression") (literal ","))),
  ("operand", oneOf [
    node "unary_expression" (seq [
      field "operator" (oneOf (["+", "-", "!", "^", "*", "&", "<-"].map literal)),
      field "operand" (ref "operand")]),
    wrapped (ref "atom") (oneOf [
      node "call_expression" (seq [field "function" wrappedNode,
        field "arguments" (node "argument_list" (seq [inRow (literal "("),
          commas (ref "expression"), optional (literal ","), literal ")"]))]),
      node "selector_expression" (seq [field "operand" wrappedNode, literal ".",
        field "field" (word "field_identifier")]),
      node "index_expression" (seq [field "operand" wrappedNode, inRow (literal "["),
        field "index" (ref "expression"), literal "]"])])]),
  ("atom", oneOf [
    oneWord "true" ["true"], oneWord "false" ["false"], oneWord "nil" ["nil"],
    oneWord "iota" ["iota"], word "identifier", token "float_literal" .pointNumber,
    token "int_literal" .wholeNumber, ref "string",
    token "rune_literal" (.pattern (.ofString "'(\\\\.[^']*|[^'\\\\\n])'")),
    node "func_literal" (seq [literal "func", ref "signature", field "body" (ref "block")]),
    node "parenthesized_expression" (seq [literal "(", ref "expression", literal ")"])]),
  ("string", either (token "raw_string_literal" (.between "`" "`"))
    (quoted "interpreted_string_literal" "interpreted_string_literal_content" '"'))]

def statements : List (String × Rule) := [
  ("block", node "block" (seq [literal "\x7b",
    many (both (ref "statement") (optional (literal ";"))), literal "\x7d"])),
  ("statement", oneOf [ref "declaration",
    node "return_statement" (seq [literal "return", optional (inRow (ref "expressions"))]),
    node "break_statement" (literal "break"), node "continue_statement" (literal "continue"),
    node "go_statement" (seq [literal "go", ref "expression"]),
    node "defer_statement" (seq [literal "defer", ref "expression"]),
    ref "if",
    node "for_statement" (seq [literal "for", optional (either (ref "clause") (ref "expression")),
      field "body" (ref "block")]),
    ref "block", ref "simple statement"]),
  ("if", node "if_statement" (seq [literal "if",
    optional (both (field "initializer" (ref "simple statement")) (literal ";")),
    field "condition" (ref "expression"), field "consequence" (ref "block"),
    optional (both (literal "else") (field "alternative" (either (ref "if") (ref "block"))))])),
  ("clause", either
    (node "range_clause" (seq [
      optional (both (field "left" (ref "expressions")) (either (literal ":=") (literal "="))),
      literal "range", field "right" (ref "expression")]))
    (node "for_clause" (seq [optional (field "initializer" (ref "simple statement")), literal ";",
      optional (field "condition" (ref "expression")), literal ";",
      optional (field "update" (ref "simple statement"))]))),
  ("simple statement", oneOf [
    node "short_var_declaration" (seq [field "left" (ref "expressions"), literal ":=",
      field "right" (ref "expressions")]),
    node "assignment_statement" (seq [field "left" (ref "expressions"),
      field "operator" (oneOf (["=", "+=", "-=", "*=", "/=", "%=", "&=", "|=", "^=", "<<=",
        ">>="].map literal)), field "right" (ref "expressions")]),
    node "inc_statement" (seq [ref "expression", literal "++"]),
    node "dec_statement" (seq [ref "expression", literal "--"]),
    node "expression_statement" (ref "expression")]),
  ("declaration", oneOf [
    node "var_declaration" (seq [literal "var", node "var_spec" (seq [
      field "name" (separated (word "identifier") (literal ",")),
      optional (inRow (field "type" (ref "type"))),
      optional (both (literal "=") (field "value" (ref "expressions")))])]),
    node "const_declaration" (seq [literal "const", node "const_spec" (seq [
      field "name" (separated (word "identifier") (literal ",")),
      optional (inRow (field "type" (ref "type"))),
      optional (both (literal "=") (field "value" (ref "expressions")))])]),
    node "type_declaration" (seq [literal "type", node "type_spec" (seq [
      field "name" (word "type_identifier"), field "type" (ref "type")])])])]

/-- Any number of declarations or statements. -/
def grammar : LanguageGrammar where
  name := "go"
  root := "source_file"
  item := both (ref "item") (optional (literal ";"))
  rules := [
    ("item", oneOf [
      node "package_clause" (seq [literal "package", word "package_identifier"]),
      node "import_declaration" (seq [literal "import", either
        (node "import_spec" (field "path" (ref "string")))
        (node "import_spec_list" (seq [literal "(",
          many (both (node "import_spec" (field "path" (ref "string"))) (optional (literal ";"))),
          literal ")"]))]),
      node "method_declaration" (seq [literal "func", field "receiver" (ref "parameters"),
        field "name" (word "field_identifier"), ref "signature",
        optional (inRow (field "body" (ref "block")))]),
      node "function_declaration" (seq [literal "func", field "name" (word "identifier"),
        ref "signature", optional (inRow (field "body" (ref "block")))]),
      ref "statement"])] ++ types ++ expressions ++ statements
  comments := [("comment", .toRowEnd "//"), ("comment", .between "/*" "*/")]
  wordStart := .wordStart
  wordRest := .wordRest
  reserved := keywords
  signs := ["--", "-=", "!=", "...", "*=", "/=", "&&", "&=", "&^", "%=", "^=", "++", "+=", "<-",
    "<<", "<<=", "<=", "==", ">=", ">>", ">>=", "|=", "||", ":="]
  otherKinds := ["imaginary_literal"]
  otherLiterals := ["...", "~", "case", "default", "fallthrough", "goto", "select", "switch"]

/-- What is highlighted. -/
def highlights : String := "; Function calls

(call_expression
  function: (identifier) @function)

(call_expression
  function: (identifier) @function.builtin
  (#match? @function.builtin \"^(append|cap|close|complex|copy|delete|imag|len|make|new|" ++
  "panic|print|println|real|recover)$\"))

(call_expression
  function: (selector_expression
    field: (field_identifier) @function.method))

; Function definitions

(function_declaration
  name: (identifier) @function)

(method_declaration
  name: (field_identifier) @function.method)

; Identifiers

(type_identifier) @type
(field_identifier) @property
(identifier) @variable

; Operators

[
  \"--\"
  \"-\"
  \"-=\"
  \":=\"
  \"!\"
  \"!=\"
  \"...\"
  \"*\"
  \"*\"
  \"*=\"
  \"/\"
  \"/=\"
  \"&\"
  \"&&\"
  \"&=\"
  \"%\"
  \"%=\"
  \"^\"
  \"^=\"
  \"+\"
  \"++\"
  \"+=\"
  \"<-\"
  \"<\"
  \"<<\"
  \"<<=\"
  \"<=\"
  \"=\"
  \"==\"
  \">\"
  \">=\"
  \">>\"
  \">>=\"
  \"|\"
  \"|=\"
  \"||\"
  \"~\"
] @operator

; Keywords

[
  \"break\"
  \"case\"
  \"chan\"
  \"const\"
  \"continue\"
  \"default\"
  \"defer\"
  \"else\"
  \"fallthrough\"
  \"for\"
  \"func\"
  \"go\"
  \"goto\"
  \"if\"
  \"import\"
  \"interface\"
  \"map\"
  \"package\"
  \"range\"
  \"return\"
  \"select\"
  \"struct\"
  \"switch\"
  \"type\"
  \"var\"
] @keyword

; Literals

[
  (interpreted_string_literal)
  (raw_string_literal)
  (rune_literal)
] @string

(escape_sequence) @escape

[
  (int_literal)
  (float_literal)
  (imaginary_literal)
] @number

[
  (true)
  (false)
  (nil)
  (iota)
] @constant.builtin

(comment) @comment
"

end LiveHighlight.Go
