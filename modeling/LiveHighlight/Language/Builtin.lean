import LiveHighlight.Language.Basic
import LiveHighlight.Language.Cpp
import LiveHighlight.Language.Go
import LiveHighlight.Language.Grammar
import LiveHighlight.Language.Json
import LiveHighlight.Language.Python
import LiveHighlight.Language.Rust
import LiveHighlight.Language.TypeScript
import LiveHighlight.Syntax.GrammarEngine

/-! The grammars that the library brings. -/

namespace LiveHighlight

namespace Language

/-- The rules of a language's texts. -/
def rules : Language → Option LanguageGrammar
  | rust => some Rust.grammar
  | python => some Python.grammar
  | javaScript => some JavaScript.grammar
  | typeScript => some TypeScript.grammar
  | c => some C.grammar
  | cpp => some Cpp.grammar
  | json => some Json.grammar
  | go => some Go.grammar
  | plainText => none

/-- The highlight query of a language. -/
def highlights : Language → String
  | rust => Rust.highlights
  | python => Python.highlights
  | javaScript => JavaScript.highlights
  | typeScript => TypeScript.highlights
  | c => C.highlights
  | cpp => Cpp.highlights
  | json => Json.highlights
  | go => Go.highlights
  | plainText => ""

/-- The grammar of a language. -/
def grammar (l : Language) : Grammar grammarEngine := ⟨l.id, l.rules, l.highlights⟩

end Language

/-- The grammars of all languages by their identifiers. -/
def builtinGrammars : GrammarSource grammarEngine := fun id =>
  match Language.ofId? id with
  | some l => .ok l.grammar
  | none => .error (.grammarNotFound id)

end LiveHighlight
