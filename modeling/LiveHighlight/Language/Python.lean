import LiveHighlight.Language.Words

/-! A grammar of Python, for its statements and expressions in their usual forms, and the highlight
query. Statements are aligned with the block around them. -/

namespace LiveHighlight.Python

open Rule

/-- Words that name nothing. -/
def keywords : List String := [
  "and", "as", "assert", "async", "await", "break", "class", "continue", "def", "del", "elif",
  "else", "except", "finally", "for", "from", "global", "if", "import", "in", "is", "lambda",
  "nonlocal", "not", "or", "pass", "raise", "return", "try", "while", "with", "yield", "True",
  "False", "None"]

/-- An operation that a row may go on with. -/
def operation (kind : String) (operators : List String) (operand : Rule) : Rule :=
  wrapped operand (node kind (seq [field "left" wrappedNode,
    field "operator" (inRow (oneOf (operators.map literal))), field "right" operand]))

def expressions : List (String × Rule) := [
  ("expression", either
    (node "conditional_expression" (seq [ref "disjunction", inRow (literal "if"),
      ref "disjunction", literal "else", ref "expression"]))
    (ref "disjunction")),
  ("disjunction", operation "boolean_operator" ["or"] (ref "conjunction")),
  ("conjunction", operation "boolean_operator" ["and"] (ref "negation")),
  ("negation", either
    (node "not_operator" (seq [literal "not", field "argument" (ref "negation")]))
    (ref "comparison")),
  ("comparison", operation "comparison_operator"
    ["==", "!=", "<=", ">=", "<", ">", "is not", "is", "not in", "in"] (ref "union")),
  ("union", operation "binary_operator" ["|", "^", "&"] (ref "shift")),
  ("shift", operation "binary_operator" ["<<", ">>"] (ref "sum")),
  ("sum", operation "binary_operator" ["+", "-"] (ref "product")),
  ("product", operation "binary_operator" ["*", "//", "/", "%", "@"] (ref "factor")),
  ("factor", either
    (node "unary_operator" (seq [field "operator" (oneOf (["+", "-", "~"].map literal)),
      field "argument" (ref "factor")]))
    (operation "binary_operator" ["**"] (ref "operand"))),
  ("operand", wrapped (ref "atom") (oneOf [
    node "call" (seq [field "function" wrappedNode, field "arguments" (node "argument_list" (seq [
      inRow (literal "("), commas (ref "argument"), optional (literal ","), literal ")"]))]),
    node "attribute" (seq [field "object" wrappedNode, inRow (literal "."),
      field "attribute" (word "identifier")]),
    node "subscript" (seq [field "value" wrappedNode, inRow (literal "["),
      field "subscript" (ref "expression"), literal "]"])])),
  ("argument", either
    (node "keyword_argument" (seq [field "name" (word "identifier"), literal "=",
      field "value" (ref "expression")]))
    (ref "expression")),
  ("atom", oneOf [
    oneWord "true" ["True"], oneWord "false" ["False"], oneWord "none" ["None"], ref "string",
    word "identifier", token "float" .pointNumber, token "integer" .wholeNumber,
    node "list" (seq [literal "[", commas (ref "expression"), optional (literal ","),
      literal "]"]),
    node "dictionary" (seq [literal "\x7b", commas (node "pair" (seq [
      field "key" (ref "expression"), literal ":", field "value" (ref "expression")])),
      optional (literal ","), literal "\x7d"]),
    node "parenthesized_expression" (seq [literal "(", ref "expression", literal ")"]),
    node "tuple" (seq [literal "(", commas (ref "expression"), optional (literal ","),
      literal ")"])]),
  ("string", either (ref "text of '\"'") (ref "text of \"'\""))] ++
  [('"', "text of '\"'"), ('\'', "text of \"'\"")].map fun (mark, name) =>
    let sign : Lexeme := .pattern (.one ⟨[(mark, mark)], false⟩)
    (name, node "string" (seq [token "string_start" sign,
      many (joined (either (token "string_content" (.quotedRun mark))
        (token "escape_sequence" .escape))),
      joined (token "string_end" sign)]))

def statements : List (String × Rule) := [
  ("body", field "body" (node "block" (either (inRow (ref "simple statement"))
    (indented (oneOrMore (aligned (ref "statement"))))))),
  ("parameters", node "parameters" (seq [literal "(", commas (ref "parameter"), literal ")"])),
  ("parameter", oneOf [
    node "default_parameter" (seq [field "name" (word "identifier"), literal "=",
      field "value" (ref "expression")]),
    node "typed_parameter" (seq [word "identifier", literal ":",
      field "type" (node "type" (ref "expression"))]),
    word "identifier"]),
  ("statement", oneOf [
    node "function_definition" (seq [literal "def", field "name" (word "identifier"),
      field "parameters" (ref "parameters"),
      optional (both (literal "->") (field "return_type" (node "type" (ref "expression")))),
      literal ":", ref "body"]),
    node "class_definition" (seq [literal "class", field "name" (word "identifier"),
      optional (field "superclasses" (node "argument_list" (seq [literal "(",
        commas (ref "expression"), literal ")"]))), literal ":", ref "body"]),
    node "decorated_definition" (both
      (node "decorator" (both (literal "@") (ref "expression"))) (aligned (ref "statement"))),
    node "if_statement" (seq [literal "if", field "condition" (ref "expression"), literal ":",
      ref "body",
      many (aligned (node "elif_clause" (seq [literal "elif",
        field "condition" (ref "expression"), literal ":", ref "body"]))),
      optional (aligned (ref "else"))]),
    node "while_statement" (seq [literal "while", field "condition" (ref "expression"),
      literal ":", ref "body", optional (aligned (ref "else"))]),
    node "for_statement" (seq [literal "for", field "left" (word "identifier"), literal "in",
      field "right" (ref "expression"), literal ":", ref "body",
      optional (aligned (ref "else"))]),
    ref "simple statement"]),
  ("else", node "else_clause" (seq [literal "else", literal ":", ref "body"])),
  ("module name", node "dotted_name" (separated (word "identifier") (literal "."))),
  ("simple statement", oneOf [
    node "return_statement" (seq [literal "return", optional (inRow (ref "expression"))]),
    node "raise_statement" (seq [literal "raise", optional (inRow (ref "expression"))]),
    node "assert_statement" (seq [literal "assert", separated (ref "expression") (literal ",")]),
    node "pass_statement" (literal "pass"), node "break_statement" (literal "break"),
    node "continue_statement" (literal "continue"),
    node "import_from_statement" (seq [literal "from", field "module_name" (ref "module name"),
      literal "import", field "name" (separated (ref "module name") (literal ","))]),
    node "import_statement" (seq [literal "import",
      field "name" (separated (ref "module name") (literal ","))]),
    node "expression_statement" (oneOf [
      node "assignment" (seq [field "left" (ref "operand"),
        optional (both (literal ":") (field "type" (node "type" (ref "expression")))),
        inRow (literal "="), field "right" (ref "expression")]),
      node "augmented_assignment" (seq [field "left" (ref "operand"),
        field "operator" (inRow (oneOf (["+=", "-=", "*=", "/=", "//=", "%=", "**=", ">>=", "<<=",
          "&=", "^=", "|=", "@="].map literal))), field "right" (ref "expression")]),
      ref "expression"])])]

/-- Any number of statements. -/
def grammar : LanguageGrammar where
  name := "python"
  root := "module"
  item := both (aligned (ref "statement")) (optional (inRow (literal ";")))
  rules := expressions ++ statements
  comments := [("comment", .toRowEnd "#")]
  wordStart := .wordStart
  wordRest := .wordRest
  reserved := keywords
  signs := ["-=", "!=", "**", "**=", "*=", "//", "//=", "/=", "&=", "%=", "^=", "->", "+=", "<<",
    "<<=", "<=", "<>", ":=", "==", ">=", ">>", ">>=", "|=", "@="]
  otherKinds := ["interpolation"]
  otherLiterals := ["<>", ":=", "as", "async", "await", "del", "except", "exec", "finally",
    "global", "lambda", "nonlocal", "print", "try", "with", "yield", "match", "case"]

/-- What is highlighted. -/
def highlights : String := "; Identifier naming conventions

(identifier) @variable

((identifier) @constructor
 (#match? @constructor \"^[A-Z]\"))

((identifier) @constant
 (#match? @constant \"^[A-Z][A-Z_]*$\"))

; Function calls

(decorator) @function
(decorator
  (identifier) @function)

(call
  function: (attribute attribute: (identifier) @function.method))
(call
  function: (identifier) @function)

; Builtin functions

((call
  function: (identifier) @function.builtin)
 (#match?
   @function.builtin
   \"^(abs|all|any|ascii|bin|bool|breakpoint|bytearray|bytes|callable|chr|classmethod|" ++
  "compile|complex|delattr|dict|dir|divmod|enumerate|eval|exec|filter|float|format|frozenset|" ++
  "getattr|globals|hasattr|hash|help|hex|id|input|int|isinstance|issubclass|iter|len|list|" ++
  "locals|map|max|memoryview|min|next|object|oct|open|ord|pow|print|property|range|repr|" ++
  "reversed|round|set|setattr|slice|sorted|staticmethod|str|sum|super|tuple|type|vars|zip|" ++
  "__import__)$\"))

; Function definitions

(function_definition
  name: (identifier) @function)

(attribute attribute: (identifier) @property)
(type (identifier) @type)

; Literals

[
  (none)
  (true)
  (false)
] @constant.builtin

[
  (integer)
  (float)
] @number

(comment) @comment
(string) @string
(escape_sequence) @escape

(interpolation
  \"\x7b\" @punctuation.special
  \"\x7d\" @punctuation.special) @embedded

[
  \"-\"
  \"-=\"
  \"!=\"
  \"*\"
  \"**\"
  \"**=\"
  \"*=\"
  \"/\"
  \"//\"
  \"//=\"
  \"/=\"
  \"&\"
  \"&=\"
  \"%\"
  \"%=\"
  \"^\"
  \"^=\"
  \"+\"
  \"->\"
  \"+=\"
  \"<\"
  \"<<\"
  \"<<=\"
  \"<=\"
  \"<>\"
  \"=\"
  \":=\"
  \"==\"
  \">\"
  \">=\"
  \">>\"
  \">>=\"
  \"|\"
  \"|=\"
  \"~\"
  \"@=\"
  \"and\"
  \"in\"
  \"is\"
  \"not\"
  \"or\"
  \"is not\"
  \"not in\"
] @operator

[
  \"as\"
  \"assert\"
  \"async\"
  \"await\"
  \"break\"
  \"class\"
  \"continue\"
  \"def\"
  \"del\"
  \"elif\"
  \"else\"
  \"except\"
  \"exec\"
  \"finally\"
  \"for\"
  \"from\"
  \"global\"
  \"if\"
  \"import\"
  \"lambda\"
  \"nonlocal\"
  \"pass\"
  \"print\"
  \"raise\"
  \"return\"
  \"try\"
  \"while\"
  \"with\"
  \"yield\"
  \"match\"
  \"case\"
] @keyword
"

end LiveHighlight.Python
