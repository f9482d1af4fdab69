import LiveHighlight.Syntax.Grammar

/-! The grammar of JSON documents with comments, and its highlight query. -/

namespace LiveHighlight.Json

open Rule

/-- Any number of values. -/
def grammar : LanguageGrammar where
  name := "json"
  root := "document"
  item := ref "value"
  rules := [
    ("value", oneOf [ref "object", ref "array", ref "string",
      token "number" (.pattern (.ofString "-?(0|[1-9][0-9]*)(\\.[0-9]*)?([eE]-?[0-9]+)?")),
      token "true" (.pattern (.ofString "true")),
      token "false" (.pattern (.ofString "false")),
      token "null" (.pattern (.ofString "null"))]),
    ("object", node "object" (seq [literal "\x7b",
      optional (separated (ref "pair") (literal ",")), literal "\x7d"])),
    ("pair", node "pair" (seq [field "key" (ref "string"), literal ":",
      field "value" (ref "value")])),
    ("array", node "array" (seq [literal "[",
      optional (separated (ref "value") (literal ",")), literal "]"])),
    ("string", node "string" (seq [literal "\"",
      many (joined (either
        (token "string_content" (.run ⟨[('\\', '\\'), ('"', '"'), ('\n', '\n')], true⟩))
        (token "escape_sequence" (.pattern (.ofString "\\\\[\"\\\\/bfnrtu]"))))),
      joined (literal "\"")]))]
  comments := [("comment", .toRowEnd "//"), ("comment", .between "/*" "*/")]

/-- What is highlighted in a document. -/
def highlights : String := "(pair
  key: (_) @string.special.key)

(string) @string

(number) @number

[
  (null)
  (true)
  (false)
] @constant.builtin

(escape_sequence) @escape

(comment) @comment
"

end LiveHighlight.Json
