import LiveHighlight.Language.C

/-! A grammar of C++: the rules of C with classes, namespaces and references, and what its highlight
query adds. -/

namespace LiveHighlight.Cpp

open Rule

/-- Words that name nothing. -/
def keywords : List String := C.keywords ++ ["auto", "catch", "class", "constexpr", "delete",
  "explicit", "final", "friend", "namespace", "new", "noexcept", "nullptr", "override", "private",
  "protected", "public", "template", "this", "throw", "try", "typename", "using", "virtual"]

/-- A member of a class. -/
def member : Rule := oneOf [
  node "access_specifier" (both (oneOf (["public", "protected", "private"].map literal))
    (literal ":")),
  node "function_definition" (seq [many (either (literal "virtual") (ref "qualifier")),
    field "type" (ref "type"), field "declarator" (node "function_declarator"
      (both (field "declarator" (word "field_identifier"))
        (field "parameters" (ref "parameters")))), field "body" (ref "block")]),
  ref "field",
  node "field_declaration" (seq [many (either (literal "virtual") (ref "qualifier")),
    field "type" (ref "type"), field "declarator" (node "function_declarator"
      (both (field "declarator" (word "field_identifier"))
        (field "parameters" (ref "parameters")))), literal ";"])]

/-- The rules that take the place of others of the same name. -/
def rules : List (String × Rule) := [
  ("fields", node "field_declaration_list" (seq [literal "\x7b", many member, literal "\x7d"])),
  ("record", oneOf ([("class_specifier", "class"), ("struct_specifier", "struct"),
      ("union_specifier", "union")].map fun (kind, sign) => node kind (seq [literal sign,
    optional (field "name" (word "type_identifier")),
    optional (node "base_class_clause" (seq [literal ":",
      optional (node "access_specifier" (oneOf (["public", "protected", "private"].map literal))),
      word "type_identifier"])),
    optional (field "body" (ref "fields"))]))),
  ("type", oneOf [
    node "placeholder_type_specifier" (node "auto" (literal "auto")),
    node "sized_type_specifier" (both
      (oneOrMore (oneOf (["unsigned", "signed", "long", "short"].map literal)))
      (optional (oneWord "primitive_type" C.primitiveTypes))),
    oneWord "primitive_type" C.primitiveTypes,
    ref "record",
    node "qualified_identifier" (seq [field "scope" (word "namespace_identifier"), literal "::",
      field "name" (word "type_identifier")]),
    word "type_identifier"]),
  ("constant", oneOf [oneWord "true" ["true"], oneWord "false" ["false"],
    node "null" (either (literal "nullptr") (literal "NULL")), oneWord "this" ["this"],
    node "qualified_identifier" (seq [field "scope" (word "namespace_identifier"), literal "::",
      field "name" (word "identifier")])]),
  ("declarator", oneOf [
    node "pointer_declarator" (both (literal "*") (field "declarator" (ref "declarator"))),
    node "reference_declarator" (both (literal "&") (ref "declarator")),
    wrapped (word "identifier") (either
      (node "function_declarator" (both (field "declarator" wrappedNode)
        (field "parameters" (ref "parameters"))))
      (node "array_declarator" (seq [field "declarator" wrappedNode, literal "[",
        optional (field "size" (ref "expression")), literal "]"])))]),
  ("namespace", oneOf [
    node "namespace_definition" (seq [literal "namespace",
      optional (field "name" (word "namespace_identifier")),
      field "body" (node "declaration_list" (seq [literal "\x7b",
        many (either (ref "namespace") (ref "item")), literal "\x7d"]))]),
    node "using_declaration" (seq [literal "using", literal "namespace", word "identifier",
      literal ";"])])]

/-- Any number of declarations. -/
def grammar : LanguageGrammar :=
  { C.grammar with
    name := "cpp"
    item := either (ref "namespace") (ref "item")
    rules := rules ++ C.grammar.rules
    reserved := keywords
    otherKinds := C.grammar.otherKinds ++ [
      "template_function", "template_method", "raw_string_literal"]
    otherLiterals := C.grammar.otherLiterals ++ [
      "catch", "co_await", "co_return", "co_yield", "constexpr", "constinit", "consteval",
      "delete", "explicit", "final", "friend", "mutable", "noexcept", "new", "override",
      "template", "throw", "try", "typename", "concept", "requires"] }

/-- What is highlighted beside what is in C. -/
def additions : String := "; Functions

(call_expression
  function: (qualified_identifier
    name: (identifier) @function))

(template_function
  name: (identifier) @function)

(template_method
  name: (field_identifier) @function)

(template_function
  name: (identifier) @function)

(function_declarator
  declarator: (qualified_identifier
    name: (identifier) @function))

(function_declarator
  declarator: (field_identifier) @function)

; Types

((namespace_identifier) @type
 (#match? @type \"^[A-Z]\"))

(auto) @type

; Constants

(this) @variable.builtin
(null \"nullptr\" @constant)

; Keywords

[
 \"catch\"
 \"class\"
 \"co_await\"
 \"co_return\"
 \"co_yield\"
 \"constexpr\"
 \"constinit\"
 \"consteval\"
 \"delete\"
 \"explicit\"
 \"final\"
 \"friend\"
 \"mutable\"
 \"namespace\"
 \"noexcept\"
 \"new\"
 \"override\"
 \"private\"
 \"protected\"
 \"public\"
 \"template\"
 \"throw\"
 \"try\"
 \"typename\"
 \"using\"
 \"concept\"
 \"requires\"
 \"virtual\"
] @keyword

; Strings

(raw_string_literal) @string
"

/-- All that is highlighted. -/
def highlights : String := C.highlights ++ "\n" ++ additions

end LiveHighlight.Cpp
