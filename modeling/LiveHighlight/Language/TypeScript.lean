import LiveHighlight.Language.JavaScript

/-! A grammar of TypeScript: the rules of JavaScript with types behind names, and what its highlight
query adds. -/

namespace LiveHighlight.TypeScript

open Rule

/-- The names of types that are no words of their own. -/
def predefinedTypes : List String :=
  ["any", "number", "boolean", "string", "symbol", "unknown", "never", "object", "void"]

def types : List (String × Rule) := [
  ("type", separated (ref "simple type") (literal "|")),
  ("simple type", wrapped (oneOf [
      oneWord "predefined_type" predefinedTypes,
      node "generic_type" (seq [field "name" (word "type_identifier"),
        field "type_arguments" (node "type_arguments" (seq [literal "<", commas (ref "type"),
          literal ">"]))]),
      word "type_identifier",
      node "literal_type" (quoted "string" "string_fragment" '"')])
    (node "array_type" (seq [wrappedNode, inRow (literal "["), literal "]"])))]

/-- The place for a type behind a name. -/
def annotated : Rule := optional (node "type_annotation" (both (literal ":") (ref "type")))

/-- Parameters with their types. -/
def parameter : Rule :=
  either
    (node "optional_parameter" (seq [field "pattern" (word "identifier"), literal "?",
      field "type" annotated]))
    (node "required_parameter" (seq [field "pattern" (word "identifier"), field "type" annotated]))

/-- Any number of statements. -/
def grammar : LanguageGrammar :=
  { JavaScript.grammar with
    name := "typescript"
    rules := JavaScript.expressions ++ types ++ [("declarations", either
      (node "type_alias_declaration" (seq [literal "type", field "name" (word "type_identifier"),
        literal "=", field "value" (ref "type"), ref "end"]))
      (node "interface_declaration" (seq [literal "interface",
        field "name" (word "type_identifier"), field "body" (node "interface_body" (seq [
          literal "\x7b", many (both (node "property_signature" (seq [
            field "name" (word "property_identifier"), field "type" annotated]))
            (optional (either (literal ";") (literal ",")))), literal "\x7d"]))])))] ++
      JavaScript.statements annotated parameter
    item := either (ref "declarations") (ref "statement")
    otherLiterals := JavaScript.grammar.otherLiterals ++ [
      "abstract", "declare", "enum", "implements", "keyof", "namespace", "private",
      "protected", "public", "readonly", "override", "satisfies"] }

/-- What is highlighted beside what is in JavaScript. -/
def additions : String := "; Types

(type_identifier) @type
(predefined_type) @type.builtin

((identifier) @type
 (#match? @type \"^[A-Z]\"))

(type_arguments
  \"<\" @punctuation.bracket
  \">\" @punctuation.bracket)

; Variables

(required_parameter (identifier) @variable.parameter)
(optional_parameter (identifier) @variable.parameter)

; Keywords

[ \"abstract\"
  \"declare\"
  \"enum\"
  \"export\"
  \"implements\"
  \"interface\"
  \"keyof\"
  \"namespace\"
  \"private\"
  \"protected\"
  \"public\"
  \"type\"
  \"readonly\"
  \"override\"
  \"satisfies\"
] @keyword
"

/-- All that is highlighted. -/
def highlights : String := JavaScript.highlights ++ "\n" ++ additions

end LiveHighlight.TypeScript
