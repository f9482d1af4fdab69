import LiveHighlight.Syntax.Difference
import LiveHighlight.Syntax.Engine
import LiveHighlight.Syntax.Parse
import LiveHighlight.Syntax.Query.Match
import LiveHighlight.Syntax.Query.Reader
import LiveHighlight.Syntax.Reshape

/-! The engine whose languages are grammars given as data. -/

namespace LiveHighlight

/-- The names of nodes and fields that a grammar has. -/
def LanguageGrammar.vocabulary (g : LanguageGrammar) : QueryVocabulary :=
  ⟨g.kinds, g.fields, g.literals⟩

/-- Parsing, comparing and querying by grammars given as data. -/
def grammarEngine : SyntaxEngine where
  Language := LanguageGrammar
  Tree := SyntaxNode
  Query := TreeQuery
  parse := LanguageGrammar.parse
  reshape tree e := tree.reshape e
  difference := SyntaxNode.difference
  compile g text := (TreeQuery.read g.vocabulary text).mapError fun f => f.message text
  captureNames := TreeQuery.names
  captures := TreeQuery.captures
  exceeds := TreeQuery.exceeds

end LiveHighlight
