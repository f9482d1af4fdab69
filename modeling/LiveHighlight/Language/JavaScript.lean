import LiveHighlight.Language.Words

/-! A grammar of JavaScript, for its declarations, statements and expressions in their usual forms,
and the highlight query. Its rules leave a place for the type of a name. -/

namespace LiveHighlight.JavaScript

open Rule

/-- Words that name nothing. -/
def keywords : List String := ["break", "case", "catch", "class", "const", "continue", "debugger",
  "default", "delete", "do", "else", "export", "extends", "finally", "for", "function", "if",
  "import", "in", "instanceof", "let", "new", "return", "switch", "throw", "try", "typeof", "var",
  "void", "while", "with", "yield", "true", "false", "null", "undefined", "this", "super"]

def expressions : List (String × Rule) :=
  levels "binary_expression" "binary" (ref "unary") [["??"], ["||"], ["&&"], ["|"], ["^"], ["&"],
    ["===", "!==", "==", "!="], ["<=", ">=", "<", ">", "instanceof", "in"], ["<<", ">>>", ">>"],
    ["+", "-"], ["*", "/", "%"], ["**"]] ++ [
  ("expression", oneOf [
    node "arrow_function" (seq [either (field "parameter" (word "identifier"))
      (field "parameters" (ref "parameters")), literal "=>",
      field "body" (either (ref "block") (ref "expression"))]),
    node "assignment_expression" (seq [field "left" (ref "operand"), literal "=",
      field "right" (ref "expression")]),
    node "augmented_assignment_expression" (seq [field "left" (ref "operand"),
      field "operator" (oneOf (["+=", "-=", "*=", "/=", "%=", "^=", "&=", "|=", ">>=", ">>>=",
        "<<=", "**=", "&&=", "||=", "??="].map literal)), field "right" (ref "expression")]),
    node "ternary_expression" (seq [field "condition" (ref "binary"), literal "?",
      field "consequence" (ref "expression"), literal ":",
      field "alternative" (ref "expression")]),
    ref "binary"]),
  ("unary", oneOf [
    node "unary_expression" (seq [
      field "operator" (oneOf (["!", "~", "-", "+", "typeof", "void", "delete"].map literal)),
      field "argument" (ref "unary")]),
    node "await_expression" (seq [literal "await", ref "unary"]),
    node "update_expression" (seq [field "operator" (either (literal "++") (literal "--")),
      field "argument" (ref "operand")]),
    wrapped (ref "operand") (node "update_expression" (seq [field "argument" wrappedNode,
      field "operator" (inRow (either (literal "++") (literal "--")))]))]),
  ("operand", wrapped (ref "atom") (oneOf [
    node "call_expression" (seq [field "function" wrappedNode,
      field "arguments" (ref "arguments")]),
    node "member_expression" (seq [field "object" wrappedNode,
      either (literal ".") (node "optional_chain" (literal "?.")),
      field "property" (word "property_identifier")]),
    node "subscript_expression" (seq [field "object" wrappedNode, literal "[",
      field "index" (ref "expression"), literal "]"])])),
  ("arguments", node "arguments" (seq [literal "(", commas (ref "expression"), literal ")"])),
  ("atom", oneOf [
    oneWord "true" ["true"], oneWord "false" ["false"], oneWord "null" ["null"],
    oneWord "undefined" ["undefined"], oneWord "this" ["this"], oneWord "super" ["super"],
    node "new_expression" (seq [literal "new", field "constructor" (ref "atom"),
      optional (field "arguments" (ref "arguments"))]),
    node "function_expression" (seq [literal "function",
      optional (field "name" (word "identifier")), ref "signature"]),
    word "identifier", token "number" .pointNumber, token "number" .wholeNumber,
    quoted "string" "string_fragment" '"', quoted "string" "string_fragment" '\'',
    token "template_string" (.between "`" "`"),
    node "parenthesized_expression" (seq [literal "(", ref "expression", literal ")"]),
    node "array" (seq [literal "[", commas (ref "expression"), literal "]"]),
    node "object" (seq [literal "\x7b", commas (ref "member"), optional (literal ","),
      literal "\x7d"])]),
  ("member", either
    (node "pair" (seq [field "key" (either (word "property_identifier")
      (quoted "string" "string_fragment" '"')), literal ":", field "value" (ref "expression")]))
    (word "shorthand_property_identifier"))]

/-- The statements of a language, given the place for a type behind a name and the rule of a
parameter. -/
def statements (typed parameter : Rule) : List (String × Rule) := [
  ("parameters", node "formal_parameters" (seq [literal "(", commas parameter, literal ")"])),
  ("signature", seq [field "parameters" (ref "parameters"), field "return_type" typed,
    field "body" (ref "block")]),
  ("block", node "statement_block" (seq [literal "\x7b", many (ref "statement"), literal "\x7d"])),
  ("end", optional (literal ";")),
  ("declarator", node "variable_declarator" (seq [field "name" (word "identifier"),
    field "type" typed, optional (both (literal "=") (field "value" (ref "expression")))])),
  ("declaration", oneOf [
    node "lexical_declaration" (seq [field "kind" (either (literal "let") (literal "const")),
      separated (ref "declarator") (literal ","), ref "end"]),
    node "variable_declaration" (seq [literal "var", separated (ref "declarator") (literal ","),
      ref "end"]),
    node "function_declaration" (seq [optional (literal "async"), literal "function",
      field "name" (word "identifier"), ref "signature"]),
    node "class_declaration" (seq [literal "class", field "name" (word "identifier"),
      optional (node "class_heritage" (both (literal "extends") (ref "operand"))),
      field "body" (node "class_body" (seq [literal "\x7b",
        many (either (literal ";") (node "method_definition" (seq [optional (literal "static"),
          field "name" (word "property_identifier"), ref "signature"]))), literal "\x7d"]))])]),
  ("condition", node "parenthesized_expression" (seq [literal "(", ref "expression",
    literal ")"])),
  ("statement", oneOf [ref "declaration", ref "block",
    node "empty_statement" (literal ";"),
    node "return_statement" (seq [literal "return", optional (inRow (ref "expression")),
      ref "end"]),
    node "throw_statement" (seq [literal "throw", inRow (ref "expression"), ref "end"]),
    node "break_statement" (seq [literal "break", ref "end"]),
    node "continue_statement" (seq [literal "continue", ref "end"]),
    node "if_statement" (seq [literal "if", field "condition" (ref "condition"),
      field "consequence" (ref "statement"), optional (field "alternative"
        (node "else_clause" (both (literal "else") (ref "statement"))))]),
    node "while_statement" (seq [literal "while", field "condition" (ref "condition"),
      field "body" (ref "statement")]),
    node "for_statement" (seq [literal "for", literal "(",
      field "initializer" (oneOf [ref "declaration", ref "expression statement", literal ";"]),
      field "condition" (either (ref "expression statement") (literal ";")),
      optional (field "increment" (ref "expression")), literal ")",
      field "body" (ref "statement")]),
    node "export_statement" (seq [literal "export", optional (literal "default"),
      field "declaration" (ref "statement")]),
    ref "expression statement"]),
  ("expression statement", node "expression_statement" (both (ref "expression") (ref "end")))]

/-- The signs of several characters. -/
def signs : List String := ["--", "-=", "++", "+=", "*=", "**", "**=", "/=", "%=", "<=", "<<",
  "<<=", "==", "===", "!=", "!==", "=>", ">=", ">>", ">>=", ">>>", ">>>=", "^=", "&=", "|=", "&&",
  "||", "??", "&&=", "||=", "??=", "?."]

/-- Any number of statements. -/
def grammar : LanguageGrammar where
  name := "javascript"
  root := "program"
  item := ref "statement"
  rules := expressions ++ statements nothing (word "identifier")
  comments := [("comment", .toRowEnd "//"), ("comment", .between "/*" "*/")]
  wordStart := { CharSet.wordStart with ranges := ('$', '$') :: CharSet.wordStart.ranges }
  wordRest := { CharSet.wordRest with ranges := ('$', '$') :: CharSet.wordRest.ranges }
  reserved := keywords
  signs
  otherKinds := ["shorthand_property_identifier_pattern", "regex", "template_substitution"]
  otherLiterals := ["$\x7b", "as", "case", "catch", "debugger", "do", "finally", "from", "get",
    "import", "of", "set", "switch", "target", "try", "with", "yield"]

/-- What is highlighted. -/
def highlights : String := "; Variables
;----------

(identifier) @variable

; Properties
;-----------

(property_identifier) @property

; Function and method definitions
;--------------------------------

(function_expression
  name: (identifier) @function)
(function_declaration
  name: (identifier) @function)
(method_definition
  name: (property_identifier) @function.method)

(pair
  key: (property_identifier) @function.method
  value: [(function_expression) (arrow_function)])

(assignment_expression
  left: (member_expression
    property: (property_identifier) @function.method)
  right: [(function_expression) (arrow_function)])

(variable_declarator
  name: (identifier) @function
  value: [(function_expression) (arrow_function)])

(assignment_expression
  left: (identifier) @function
  right: [(function_expression) (arrow_function)])

; Function and method calls
;--------------------------

(call_expression
  function: (identifier) @function)

(call_expression
  function: (member_expression
    property: (property_identifier) @function.method))

; Special identifiers
;--------------------

((identifier) @constructor
 (#match? @constructor \"^[A-Z]\"))

([
    (identifier)
    (shorthand_property_identifier)
    (shorthand_property_identifier_pattern)
 ] @constant
 (#match? @constant \"^[A-Z_][A-Z\\\\d_]+$\"))

((identifier) @variable.builtin
 (#match? @variable.builtin \"^(arguments|module|console|window|document)$\")
 (#is-not? local))

((identifier) @function.builtin
 (#eq? @function.builtin \"require\")
 (#is-not? local))

; Literals
;---------

(this) @variable.builtin
(super) @variable.builtin

[
  (true)
  (false)
  (null)
  (undefined)
] @constant.builtin

(comment) @comment

[
  (string)
  (template_string)
] @string

(regex) @string.special
(number) @number

; Tokens
;-------

[
  \";\"
  (optional_chain)
  \".\"
  \",\"
] @punctuation.delimiter

[
  \"-\"
  \"--\"
  \"-=\"
  \"+\"
  \"++\"
  \"+=\"
  \"*\"
  \"*=\"
  \"**\"
  \"**=\"
  \"/\"
  \"/=\"
  \"%\"
  \"%=\"
  \"<\"
  \"<=\"
  \"<<\"
  \"<<=\"
  \"=\"
  \"==\"
  \"===\"
  \"!\"
  \"!=\"
  \"!==\"
  \"=>\"
  \">\"
  \">=\"
  \">>\"
  \">>=\"
  \">>>\"
  \">>>=\"
  \"~\"
  \"^\"
  \"&\"
  \"|\"
  \"^=\"
  \"&=\"
  \"|=\"
  \"&&\"
  \"||\"
  \"??\"
  \"&&=\"
  \"||=\"
  \"??=\"
] @operator

[
  \"(\"
  \")\"
  \"[\"
  \"]\"
  \"\x7b\"
  \"\x7d\"
]  @punctuation.bracket

(template_substitution
  \"$\x7b\" @punctuation.special
  \"\x7d\" @punctuation.special) @embedded

[
  \"as\"
  \"async\"
  \"await\"
  \"break\"
  \"case\"
  \"catch\"
  \"class\"
  \"const\"
  \"continue\"
  \"debugger\"
  \"default\"
  \"delete\"
  \"do\"
  \"else\"
  \"export\"
  \"extends\"
  \"finally\"
  \"for\"
  \"from\"
  \"function\"
  \"get\"
  \"if\"
  \"import\"
  \"in\"
  \"instanceof\"
  \"let\"
  \"new\"
  \"of\"
  \"return\"
  \"set\"
  \"static\"
  \"switch\"
  \"target\"
  \"throw\"
  \"try\"
  \"typeof\"
  \"var\"
  \"void\"
  \"while\"
  \"with\"
  \"yield\"
] @keyword
"

end LiveHighlight.JavaScript
