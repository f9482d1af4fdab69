import LiveHighlight.Failure
import LiveHighlight.Syntax.Engine
import LiveHighlight.Text.Quoted

/-! Grammars as they are handed to a highlighter, and where they come from. -/

namespace LiveHighlight

/-- A language's parser and the text of its highlight query. Without a parser a text stays plain. -/
structure Grammar (E : SyntaxEngine) where
  id : String
  language : Option E.Language
  highlights : String

/-- A source of grammars: the grammar of a language's identifier, or why there is none. -/
abbrev GrammarSource (E : SyntaxEngine) := String → Except HighlightFailure (Grammar E)

namespace Grammar

variable {E : SyntaxEngine}

/-- The grammar of plain text. -/
def plainText : Grammar E := ⟨"plaintext", none, ""⟩

/-- A grammar in short: its query is only measured. -/
def summary (g : Grammar E) : String :=
  "Grammar \x7b id: " ++ Quoted.encode g.id ++ ", has_parser: " ++
    (if g.language.isSome then "true" else "false") ++ ", query_bytes: " ++
    toString g.highlights.utf8ByteSize ++ " \x7d"

end Grammar

end LiveHighlight
