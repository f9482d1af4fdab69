import LiveHighlight.Language.Words

/-! A grammar of C, for its declarations, statements and expressions in their usual forms, and the
highlight query. -/

namespace LiveHighlight.C

open Rule

/-- Words that name nothing. -/
def keywords : List String := [
  "break", "case", "const", "continue", "default", "do", "else", "enum", "extern", "for", "goto",
  "if", "inline", "register", "return", "sizeof", "static", "struct", "switch", "typedef", "union",
  "volatile", "while", "signed", "unsigned", "long", "short"]

/-- The names of types that are no words of their own. -/
def primitiveTypes : List String := ["bool", "char", "double", "float", "int", "int8_t", "int16_t",
  "int32_t", "int64_t", "size_t", "uint8_t", "uint16_t", "uint32_t", "uint64_t", "void"]

def types : List (String × Rule) := [
  ("qualifier", either
    (node "type_qualifier" (either (literal "const") (literal "volatile")))
    (node "storage_class_specifier" (oneOf (["static", "extern", "inline",
      "register"].map literal)))),
  ("type", oneOf [
    node "sized_type_specifier" (both
      (oneOrMore (oneOf (["unsigned", "signed", "long", "short"].map literal)))
      (optional (oneWord "primitive_type" primitiveTypes))),
    oneWord "primitive_type" primitiveTypes,
    ref "record",
    node "enum_specifier" (seq [literal "enum", optional (field "name" (word "type_identifier")),
      optional (field "body" (node "enumerator_list" (seq [literal "\x7b",
        commas (node "enumerator" (both (field "name" (word "identifier"))
          (optional (both (literal "=") (field "value" (ref "expression")))))),
        optional (literal ","), literal "\x7d"])))]),
    word "type_identifier"]),
  ("record", oneOf ([("struct_specifier", "struct"), ("union_specifier", "union")].map
    fun (kind, sign) => node kind (seq [literal sign,
      optional (field "name" (word "type_identifier")), optional (field "body" (ref "fields"))]))),
  ("fields", node "field_declaration_list" (seq [literal "\x7b", many (ref "field"),
    literal "\x7d"])),
  ("field", node "field_declaration" (seq [many (ref "qualifier"), field "type" (ref "type"),
    field "declarator" (ref "field declarator"), literal ";"])),
  ("field declarator", either
    (node "pointer_declarator" (both (literal "*") (field "declarator" (ref "field declarator"))))
    (word "field_identifier")),
  ("declarator", either
    (node "pointer_declarator" (both (literal "*") (field "declarator" (ref "declarator"))))
    (wrapped (word "identifier") (either
      (node "function_declarator" (both (field "declarator" wrappedNode)
        (field "parameters" (ref "parameters"))))
      (node "array_declarator" (seq [field "declarator" wrappedNode, literal "[",
        optional (field "size" (ref "expression")), literal "]"]))))),
  ("parameters", node "parameter_list" (seq [literal "(", commas (ref "parameter"), literal ")"])),
  ("parameter", node "parameter_declaration" (seq [many (ref "qualifier"),
    field "type" (ref "type"), optional (field "declarator" (either (ref "declarator")
      (node "abstract_pointer_declarator" (oneOrMore (literal "*")))))]))]

def expressions : List (String × Rule) :=
  levels "binary_expression" "binary" (ref "unary") [["||"], ["&&"], ["|"], ["^"], ["&"],
    ["==", "!="], ["<=", ">=", "<", ">"], ["<<", ">>"], ["+", "-"], ["*", "/", "%"]] ++ [
  ("expression", oneOf [
    node "assignment_expression" (seq [field "left" (ref "unary"),
      field "operator" (oneOf (["=", "*=", "/=", "%=", "+=", "-=", "<<=", ">>=", "&=", "^=",
        "|="].map literal)), field "right" (ref "expression")]),
    node "conditional_expression" (seq [field "condition" (ref "binary"), literal "?",
      field "consequence" (ref "expression"), literal ":",
      field "alternative" (ref "expression")]),
    ref "binary"]),
  ("unary", oneOf [
    node "update_expression" (both (field "operator" (either (literal "++") (literal "--")))
      (field "argument" (ref "unary"))),
    node "pointer_expression" (both (field "operator" (either (literal "*") (literal "&")))
      (field "argument" (ref "unary"))),
    node "unary_expression" (both (field "operator" (oneOf (["!", "~", "-", "+"].map literal)))
      (field "argument" (ref "unary"))),
    node "sizeof_expression" (seq [literal "sizeof", literal "(",
      field "type" (node "type_descriptor" (field "type" (ref "type"))), literal ")"]),
    ref "operand"]),
  ("operand", wrapped (ref "atom") (oneOf [
    node "call_expression" (both (field "function" wrappedNode)
      (field "arguments" (node "argument_list" (seq [literal "(", commas (ref "expression"),
        literal ")"])))),
    node "field_expression" (seq [field "argument" wrappedNode,
      field "operator" (either (literal ".") (literal "->")),
      field "field" (word "field_identifier")]),
    node "subscript_expression" (seq [field "argument" wrappedNode, literal "[",
      field "index" (ref "expression"), literal "]"]),
    node "update_expression" (both (field "argument" wrappedNode)
      (field "operator" (either (literal "++") (literal "--"))))])),
  ("atom", oneOf [
    ref "constant", word "identifier", token "number_literal" .pointNumber,
    token "number_literal" .wholeNumber, quoted "string_literal" "string_content" '"',
    quoted "char_literal" "character" '\'',
    node "parenthesized_expression" (seq [literal "(", ref "expression", literal ")"])]),
  ("constant", oneOf [oneWord "true" ["true"], oneWord "false" ["false"],
    node "null" (literal "NULL")])]

def statements : List (String × Rule) := [
  ("block", node "compound_statement" (seq [literal "\x7b", many (ref "statement"),
    literal "\x7d"])),
  ("condition", node "parenthesized_expression" (seq [literal "(", ref "expression",
    literal ")"])),
  ("statement", oneOf [ref "block",
    node "return_statement" (seq [literal "return", optional (ref "expression"), literal ";"]),
    node "break_statement" (both (literal "break") (literal ";")),
    node "continue_statement" (both (literal "continue") (literal ";")),
    node "if_statement" (seq [literal "if", field "condition" (ref "condition"),
      field "consequence" (ref "statement"), optional (field "alternative"
        (node "else_clause" (both (literal "else") (ref "statement"))))]),
    node "while_statement" (seq [literal "while", field "condition" (ref "condition"),
      field "body" (ref "statement")]),
    node "do_statement" (seq [literal "do", field "body" (ref "statement"), literal "while",
      field "condition" (ref "condition"), literal ";"]),
    node "for_statement" (seq [literal "for", literal "(",
      field "initializer" (oneOf [ref "declaration", ref "expression statement", literal ";"]),
      optional (field "condition" (ref "expression")), literal ";",
      optional (field "update" (ref "expression")), literal ")",
      field "body" (ref "statement")]),
    ref "declaration", ref "expression statement", literal ";"]),
  ("expression statement", node "expression_statement" (both (ref "expression") (literal ";"))),
  ("declaration", either
    (node "declaration" (seq [many (ref "qualifier"), field "type" (ref "type"),
      field "declarator" (separated (ref "initialized") (literal ",")), literal ";"]))
    (both (ref "record") (literal ";"))),
  ("initialized", either
    (node "init_declarator" (seq [field "declarator" (ref "declarator"), literal "=",
      field "value" (ref "expression")]))
    (ref "declarator"))]

def items : List (String × Rule) := [
  ("item", oneOf [
    node "preproc_include" (both (literal "#include") (field "path" (inRow (either
      (token "system_lib_string" (.between "<" ">"))
      (quoted "string_literal" "string_content" '"'))))),
    node "preproc_def" (seq [literal "#define", field "name" (inRow (word "identifier")),
      optional (inRow (field "value" (token "preproc_arg" (.run .anyInRow))))]),
    node "type_definition" (seq [literal "typedef", field "type" (ref "type"),
      field "declarator" (word "type_identifier"), literal ";"]),
    ref "function", ref "statement"]),
  ("function", node "function_definition" (seq [many (ref "qualifier"),
    field "type" (ref "type"), field "declarator" (ref "declarator"),
    field "body" (ref "block")]))]

/-- Any number of declarations. -/
def grammar : LanguageGrammar where
  name := "c"
  root := "translation_unit"
  item := ref "item"
  rules := items ++ types ++ expressions ++ statements
  comments := [("comment", .toRowEnd "//"), ("comment", .between "/*" "*/")]
  wordStart := .wordStart
  wordRest := .wordRest
  reserved := keywords
  signs := ["--", "-=", "->", "!=", "*=", "/=", "%=", "&&", "&=", "++", "+=", "<<", "<<=", "<=",
    "==", ">=", ">>", ">>=", "^=", "|=", "||", "::"]
  otherKinds := ["preproc_directive", "statement_identifier", "preproc_function_def"]
  otherLiterals := ["case", "default", "switch", "#elif", "#else", "#endif", "#if", "#ifdef",
    "#ifndef"]

/-- What is highlighted. -/
def highlights : String := "(identifier) @variable

((identifier) @constant
 (#match? @constant \"^[A-Z][A-Z\\\\d_]*$\"))

\"break\" @keyword
\"case\" @keyword
\"const\" @keyword
\"continue\" @keyword
\"default\" @keyword
\"do\" @keyword
\"else\" @keyword
\"enum\" @keyword
\"extern\" @keyword
\"for\" @keyword
\"if\" @keyword
\"inline\" @keyword
\"return\" @keyword
\"sizeof\" @keyword
\"static\" @keyword
\"struct\" @keyword
\"switch\" @keyword
\"typedef\" @keyword
\"union\" @keyword
\"volatile\" @keyword
\"while\" @keyword

\"#define\" @keyword
\"#elif\" @keyword
\"#else\" @keyword
\"#endif\" @keyword
\"#if\" @keyword
\"#ifdef\" @keyword
\"#ifndef\" @keyword
\"#include\" @keyword
(preproc_directive) @keyword

\"--\" @operator
\"-\" @operator
\"-=\" @operator
\"->\" @operator
\"=\" @operator
\"!=\" @operator
\"*\" @operator
\"&\" @operator
\"&&\" @operator
\"+\" @operator
\"++\" @operator
\"+=\" @operator
\"<\" @operator
\"==\" @operator
\">\" @operator
\"||\" @operator

\".\" @delimiter
\";\" @delimiter

(string_literal) @string
(system_lib_string) @string

(null) @constant
(number_literal) @number
(char_literal) @number

(field_identifier) @property
(statement_identifier) @label
(type_identifier) @type
(primitive_type) @type
(sized_type_specifier) @type

(call_expression
  function: (identifier) @function)
(call_expression
  function: (field_expression
    field: (field_identifier) @function))
(function_declarator
  declarator: (identifier) @function)
(preproc_function_def
  name: (identifier) @function.special)

(comment) @comment
"

end LiveHighlight.C
