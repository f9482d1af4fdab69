import LiveHighlight.Language.Words

/-! A grammar of Rust, for its items, statements and expressions in their usual forms, and the
highlight query. -/

namespace LiveHighlight.Rust

open Rule

/-- Words that name nothing. -/
def keywords : List String := ["as", "async", "await", "break", "const", "continue", "crate", "dyn",
  "else", "enum", "extern", "false", "fn", "for", "if", "impl", "in", "let", "loop", "match", "mod",
  "move", "mut", "pub", "ref", "return", "self", "static", "struct", "super", "trait", "true",
  "type", "unsafe", "use", "where", "while"]

/-- The names of types that are no words of their own. -/
def primitiveTypes : List String := ["u8", "i8", "u16", "i16", "u32", "i32", "u64", "i64", "u128",
  "i128", "isize", "usize", "f32", "f64", "bool", "str", "char"]

def types : List (String × Rule) := [
  ("type", oneOf [
    node "reference_type" (seq [literal "&",
      optional (node "lifetime" (both (literal "'") (joined (word "identifier")))),
      optional (oneWord "mutable_specifier" ["mut"]), field "type" (ref "type")]),
    node "unit_type" (both (literal "(") (literal ")")),
    node "tuple_type" (seq [literal "(", separated (ref "type") (literal ","), literal ")"]),
    node "array_type" (seq [literal "[", field "element" (ref "type"),
      optional (both (literal ";") (field "length" (ref "expression"))), literal "]"]),
    oneWord "primitive_type" primitiveTypes,
    node "generic_type" (seq [field "type" (ref "type name"),
      field "type_arguments" (node "type_arguments" (seq [literal "<", commas (ref "type"),
        literal ">"]))]),
    ref "type name"]),
  ("type name", either
    (node "scoped_type_identifier" (seq [field "path" (word "identifier"), literal "::",
      field "name" (word "type_identifier")]))
    (word "type_identifier")),
  ("path", wrapped (oneOf [oneWord "crate" ["crate"], oneWord "super" ["super"],
      oneWord "self" ["self"], word "identifier"])
    (node "scoped_identifier" (seq [field "path" wrappedNode, literal "::",
      field "name" (word "identifier")])))]

def expressions : List (String × Rule) :=
  levels "binary_expression" "binary" (ref "unary") [["||"], ["&&"],
    ["==", "!=", "<=", ">=", "<", ">"], ["|"], ["^"], ["&"], ["<<", ">>"], ["+", "-"],
    ["*", "/", "%"]] ++ [
  ("expression", oneOf [
    node "assignment_expression" (seq [field "left" (ref "unary"), literal "=",
      field "right" (ref "expression")]),
    node "compound_assignment_expr" (seq [field "left" (ref "unary"),
      field "operator" (oneOf (["+=", "-=", "*=", "/=", "%=", "&=", "|=", "^=", "<<=",
        ">>="].map literal)), field "right" (ref "expression")]),
    node "range_expression" (seq [ref "binary", either (literal "..=") (literal ".."),
      ref "binary"]),
    ref "binary"]),
  ("unary", oneOf [
    node "reference_expression" (seq [literal "&", optional (oneWord "mutable_specifier" ["mut"]),
      field "value" (ref "unary")]),
    node "unary_expression" (both (oneOf (["-", "*", "!"].map literal)) (ref "unary")),
    ref "operand"]),
  ("operand", wrapped (ref "atom") (oneOf [
    node "call_expression" (both (field "function" wrappedNode)
      (field "arguments" (ref "arguments"))),
    node "field_expression" (seq [field "value" wrappedNode, literal ".",
      field "field" (either (word "field_identifier") (token "integer_literal" .wholeNumber))]),
    node "index_expression" (seq [wrappedNode, literal "[", ref "expression", literal "]"]),
    node "try_expression" (both wrappedNode (literal "?"))])),
  ("arguments", node "arguments" (seq [literal "(", commas (ref "expression"),
    optional (literal ","), literal ")"])),
  ("atom", oneOf [
    oneWord "boolean_literal" ["true", "false"],
    ref "block expression",
    node "return_expression" (both (literal "return") (optional (ref "expression"))),
    node "break_expression" (literal "break"), node "continue_expression" (literal "continue"),
    node "macro_invocation" (seq [field "macro" (word "identifier"), literal "!",
      ref "token tree"]),
    ref "path", token "float_literal" .pointNumber, token "integer_literal" .wholeNumber,
    quoted "string_literal" "string_content" '"',
    token "char_literal" (.pattern (.ofString "'(\\\\[^\n]|[^'\\\\\n])'")),
    node "unit_expression" (both (literal "(") (literal ")")),
    node "parenthesized_expression" (seq [literal "(", ref "expression", literal ")"]),
    node "tuple_expression" (seq [literal "(", commas (ref "expression"), optional (literal ","),
      literal ")"]),
    node "array_expression" (seq [literal "[", commas (ref "expression"), literal "]"])]),
  ("token tree", oneOf [
    node "token_tree" (seq [literal "(", many (ref "token"), literal ")"]),
    node "token_tree" (seq [literal "[", many (ref "token"), literal "]"]),
    node "token_tree" (seq [literal "\x7b", many (ref "token"), literal "\x7d"])]),
  ("token", oneOf [ref "token tree", oneWord "boolean_literal" ["true", "false"],
    oneWord "self" ["self"], oneWord "primitive_type" primitiveTypes, word "identifier",
    token "float_literal" .pointNumber, token "integer_literal" .wholeNumber,
    quoted "string_literal" "string_content" '"',
    oneOf (["::", ":", ".", ",", ";", "=>", "==", "=", "!=", "!", "&", "+", "-", "*", "/", "<",
      ">", "?"].map literal)]),
  ("block", node "block" (seq [literal "\x7b", many (ref "statement"),
    optional (ref "expression"), literal "\x7d"])),
  ("block expression", oneOf [ref "if",
    node "while_expression" (seq [literal "while", field "condition" (ref "expression"),
      field "body" (ref "block")]),
    node "loop_expression" (both (literal "loop") (field "body" (ref "block"))),
    node "for_expression" (seq [literal "for", field "pattern" (word "identifier"), literal "in",
      field "value" (ref "expression"), field "body" (ref "block")]),
    node "unsafe_block" (both (literal "unsafe") (ref "block")),
    ref "block"]),
  ("if", node "if_expression" (seq [literal "if", field "condition" (ref "expression"),
    field "consequence" (ref "block"), optional (field "alternative"
      (node "else_clause" (both (literal "else") (either (ref "if") (ref "block")))))]))]

def items : List (String × Rule) := [
  ("statement", oneOf [
    node "let_declaration" (seq [literal "let", optional (oneWord "mutable_specifier" ["mut"]),
      field "pattern" (word "identifier"),
      optional (both (literal ":") (field "type" (ref "type"))),
      optional (both (literal "=") (field "value" (ref "expression"))), literal ";"]),
    ref "item", node "empty_statement" (literal ";"),
    node "expression_statement" (both (ref "expression") (literal ";")),
    node "expression_statement" (ref "block expression")]),
  ("visibility", optional (node "visibility_modifier" (literal "pub"))),
  ("type parameters", optional (field "type_parameters" (node "type_parameters" (seq [literal "<",
    commas (either (node "lifetime_parameter" (node "lifetime" (both (literal "'")
      (joined (word "identifier"))))) (node "type_parameter" (word "type_identifier"))),
    literal ">"])))),
  ("parameter", either
    (node "self_parameter" (seq [optional (literal "&"),
      optional (oneWord "mutable_specifier" ["mut"]), oneWord "self" ["self"]]))
    (node "parameter" (seq [optional (oneWord "mutable_specifier" ["mut"]),
      field "pattern" (word "identifier"), literal ":", field "type" (ref "type")]))),
  ("function", seq [ref "visibility", literal "fn", field "name" (word "identifier"),
    ref "type parameters",
    field "parameters" (node "parameters" (seq [literal "(", commas (ref "parameter"),
      literal ")"])),
    optional (both (literal "->") (field "return_type" (ref "type")))]),
  ("declarations", node "declaration_list" (seq [literal "\x7b", many (ref "item"),
    literal "\x7d"])),
  ("use", oneOf [
    node "scoped_use_list" (seq [field "path" (ref "path"), literal "::",
      field "list" (node "use_list" (seq [literal "\x7b", commas (ref "use"), literal "\x7d"]))]),
    node "use_wildcard" (seq [ref "path", literal "::", literal "*"]),
    node "use_as_clause" (seq [field "path" (ref "path"), literal "as",
      field "alias" (word "identifier")]),
    ref "path"]),
  ("item", oneOf [
    node "attribute_item" (seq [literal "#", literal "[", node "attribute" (seq [ref "path",
      optional (field "arguments" (ref "token tree"))]), literal "]"]),
    node "function_item" (both (ref "function") (field "body" (ref "block"))),
    node "function_signature_item" (both (ref "function") (literal ";")),
    node "use_declaration" (seq [ref "visibility", literal "use", field "argument" (ref "use"),
      literal ";"]),
    node "mod_item" (seq [ref "visibility", literal "mod", field "name" (word "identifier"),
      either (literal ";") (field "body" (ref "declarations"))]),
    node "struct_item" (seq [ref "visibility", literal "struct",
      field "name" (word "type_identifier"), ref "type parameters",
      either (literal ";") (field "body" (node "field_declaration_list" (seq [literal "\x7b",
        commas (node "field_declaration" (seq [ref "visibility",
          field "name" (word "field_identifier"), literal ":", field "type" (ref "type")])),
        optional (literal ","), literal "\x7d"])))]),
    node "enum_item" (seq [ref "visibility", literal "enum", field "name" (word "type_identifier"),
      ref "type parameters", field "body" (node "enum_variant_list" (seq [literal "\x7b",
        commas (node "enum_variant" (field "name" (word "identifier"))), optional (literal ","),
        literal "\x7d"]))]),
    node "trait_item" (seq [ref "visibility", literal "trait",
      field "name" (word "type_identifier"), ref "type parameters",
      field "body" (ref "declarations")]),
    node "impl_item" (seq [literal "impl", ref "type parameters",
      optional (both (field "trait" (ref "type")) (literal "for")), field "type" (ref "type"),
      field "body" (ref "declarations")]),
    node "const_item" (seq [ref "visibility", literal "const", field "name" (word "identifier"),
      literal ":", field "type" (ref "type"), literal "=", field "value" (ref "expression"),
      literal ";"]),
    node "static_item" (seq [ref "visibility", literal "static", field "name" (word "identifier"),
      literal ":", field "type" (ref "type"), literal "=", field "value" (ref "expression"),
      literal ";"])])]

/-- Any number of items. -/
def grammar : LanguageGrammar where
  name := "rust"
  root := "source_file"
  item := ref "statement"
  rules := items ++ types ++ expressions
  comments := [("line_comment", .toRowEnd "//"), ("block_comment", .between "/*" "*/")]
  wordStart := .wordStart
  wordRest := .wordRest
  reserved := keywords
  signs := ["-=", "!=", "*=", "/=", "&&", "&=", "%=", "^=", "+=", "<<", "<<=", "<=", "==", "=>",
    ">=", ">>", ">>=", "|=", "||", "..", "..=", "::", "->"]
  otherKinds := ["struct_pattern", "generic_function", "doc_comment", "raw_string_literal",
    "inner_attribute_item"]
  otherLiterals := ["async", "await", "default", "dyn", "extern", "gen", "macro_rules!", "match",
    "move", "raw", "ref", "type", "union", "where", "yield"]

/-- What is highlighted. -/
def highlights : String := "; Identifiers

(type_identifier) @type
(primitive_type) @type.builtin
(field_identifier) @property

; Identifier conventions

; Assume all-caps names are constants
((identifier) @constant
 (#match? @constant \"^[A-Z][A-Z\\\\d_]+$'\"))

; Assume uppercase names are enum constructors
((identifier) @constructor
 (#match? @constructor \"^[A-Z]\"))

; Assume that uppercase names in paths are types
((scoped_identifier
  path: (identifier) @type)
 (#match? @type \"^[A-Z]\"))
((scoped_identifier
  path: (scoped_identifier
    name: (identifier) @type))
 (#match? @type \"^[A-Z]\"))
((scoped_type_identifier
  path: (identifier) @type)
 (#match? @type \"^[A-Z]\"))
((scoped_type_identifier
  path: (scoped_identifier
    name: (identifier) @type))
 (#match? @type \"^[A-Z]\"))

; Assume all qualified names in struct patterns are enum constructors. (They're
; either that, or struct names; highlighting both as constructors seems to be
; the less glaring choice of error, visually.)
(struct_pattern
  type: (scoped_type_identifier
    name: (type_identifier) @constructor))

; Function calls

(call_expression
  function: (identifier) @function)
(call_expression
  function: (field_expression
    field: (field_identifier) @function.method))
(call_expression
  function: (scoped_identifier
    \"::\"
    name: (identifier) @function))

(generic_function
  function: (identifier) @function)
(generic_function
  function: (scoped_identifier
    name: (identifier) @function))
(generic_function
  function: (field_expression
    field: (field_identifier) @function.method))

(macro_invocation
  macro: (identifier) @function.macro
  \"!\" @function.macro)

; Function definitions

(function_item (identifier) @function)
(function_signature_item (identifier) @function)

(line_comment) @comment
(block_comment) @comment

(line_comment (doc_comment)) @comment.documentation
(block_comment (doc_comment)) @comment.documentation

\"(\" @punctuation.bracket
\")\" @punctuation.bracket
\"[\" @punctuation.bracket
\"]\" @punctuation.bracket
\"\x7b\" @punctuation.bracket
\"\x7d\" @punctuation.bracket

(type_arguments
  \"<\" @punctuation.bracket
  \">\" @punctuation.bracket)
(type_parameters
  \"<\" @punctuation.bracket
  \">\" @punctuation.bracket)

\"::\" @punctuation.delimiter
\":\" @punctuation.delimiter
\".\" @punctuation.delimiter
\",\" @punctuation.delimiter
\";\" @punctuation.delimiter

(parameter (identifier) @variable.parameter)

(lifetime (identifier) @label)

\"as\" @keyword
\"async\" @keyword
\"await\" @keyword
\"break\" @keyword
\"const\" @keyword
\"continue\" @keyword
\"default\" @keyword
\"dyn\" @keyword
\"else\" @keyword
\"enum\" @keyword
\"extern\" @keyword
\"fn\" @keyword
\"for\" @keyword
\"gen\" @keyword
\"if\" @keyword
\"impl\" @keyword
\"in\" @keyword
\"let\" @keyword
\"loop\" @keyword
\"macro_rules!\" @keyword
\"match\" @keyword
\"mod\" @keyword
\"move\" @keyword
\"pub\" @keyword
\"raw\" @keyword
\"ref\" @keyword
\"return\" @keyword
\"static\" @keyword
\"struct\" @keyword
\"trait\" @keyword
\"type\" @keyword
\"union\" @keyword
\"unsafe\" @keyword
\"use\" @keyword
\"where\" @keyword
\"while\" @keyword
\"yield\" @keyword
(crate) @keyword
(mutable_specifier) @keyword
(use_list (self) @keyword)
(scoped_use_list (self) @keyword)
(scoped_identifier (self) @keyword)
(super) @keyword

(self) @variable.builtin

(char_literal) @string
(string_literal) @string
(raw_string_literal) @string

(boolean_literal) @constant.builtin
(integer_literal) @constant.builtin
(float_literal) @constant.builtin

(escape_sequence) @escape

(attribute_item) @attribute
(inner_attribute_item) @attribute

\"*\" @operator
\"&\" @operator
\"'\" @operator
"

end LiveHighlight.Rust
