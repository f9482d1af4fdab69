/-! The closed set of captures: what a highlighted stretch of text is taken for. Each has a dotted
name, under which highlight queries know it. -/

namespace LiveHighlight

/-- A classification of highlighted text. -/
inductive Capture
  | inclusion | constructor | keyword | boolean | repetition | conditional | conditionalTernary
  | tag | comment | variableName | property | function | functionName | functionBuiltin
  | functionCall | functionMacro | functionMethod | functionMethodCall | method | number | float
  | string | stringDocumentation | stringRegexp | stringEscape | stringSpecial
  | stringSpecialSymbol | stringSpecialUrl | stringSpecialPath | type | parameter
  | typeAlternate | variableBuiltin | variableParameter | variableParameterBuiltin
  | variableMember | keywordReturn | keywordFunction | identifier | operator | constant
  | constantBuiltin | constantMacro | attributeName | attributeBuiltin | embedded | error
  | unhighlighted | preproc | define | debug | exception | label | field | storageClass | symbol
  | namespaceName | moduleBuiltin | conceal | spell | nospell | fold | punctuation
  | punctuationDelimiter | punctuationBracket | punctuationSpecial | escape | regex | annotated
  | documentation | emphasis | strong | link | linkLabel | linkUrl | heading | heading1
  | heading2 | heading3 | heading4 | heading5 | heading6 | italic | bold | underline
  | strikethrough | title | literal | literalBlock | uri | math | metadata | inherit
  | background | text | reference | environment | environmentName | note | todo | character
  | characterSpecial | escapeCharacter | delimiter | angle | bracket | cdata | doctype | entity
  | className | tagName | tagAttribute | tagDelimiter | templateTag | builtinType
  | primitiveType | tagBuiltin | typeDefinition | keywordCoroutine | keywordOperator
  | keywordImport | keywordType | keywordModifier | keywordRepeat | markupQuote | markupList
  | markupListChecked | markupListUnchecked | commentLine | commentBlock | commentError
  | commentWarning | commentNote
deriving DecidableEq, Repr, Inhabited

namespace Capture

/-- All captures, in their order. -/
def all : List Capture := [
  inclusion, constructor, keyword, boolean, repetition, conditional, conditionalTernary, tag,
  comment, variableName, property, function, functionName, functionBuiltin, functionCall,
  functionMacro, functionMethod, functionMethodCall, method, number, float, string,
  stringDocumentation, stringRegexp, stringEscape, stringSpecial, stringSpecialSymbol,
  stringSpecialUrl, stringSpecialPath, type, parameter, typeAlternate, variableBuiltin,
  variableParameter, variableParameterBuiltin, variableMember, keywordReturn, keywordFunction,
  identifier, operator, constant, constantBuiltin, constantMacro, attributeName, attributeBuiltin,
  embedded, error, unhighlighted, preproc, define, debug, exception, label, field, storageClass,
  symbol, namespaceName, moduleBuiltin, conceal, spell, nospell, fold, punctuation,
  punctuationDelimiter, punctuationBracket, punctuationSpecial, escape, regex, annotated,
  documentation, emphasis, strong, link, linkLabel, linkUrl, heading, heading1, heading2,
  heading3, heading4, heading5, heading6, italic, bold, underline, strikethrough, title, literal,
  literalBlock, uri, math, metadata, inherit, background, text, reference, environment,
  environmentName, note, todo, character, characterSpecial, escapeCharacter, delimiter, angle,
  bracket, cdata, doctype, entity, className, tagName, tagAttribute, tagDelimiter, templateTag,
  builtinType, primitiveType, tagBuiltin, typeDefinition, keywordCoroutine, keywordOperator,
  keywordImport, keywordType, keywordModifier, keywordRepeat, markupQuote, markupList,
  markupListChecked, markupListUnchecked, commentLine, commentBlock, commentError, commentWarning,
  commentNote]

/-- The dotted name of a capture. -/
def name : Capture → String
  | inclusion => "include"
  | constructor => "constructor"
  | keyword => "keyword"
  | boolean => "boolean"
  | repetition => "repeat"
  | conditional => "conditional"
  | conditionalTernary => "keyword.conditional.ternary"
  | tag => "tag"
  | comment => "comment"
  | variableName => "variable"
  | property => "property"
  | function => "function"
  | functionName => "function.name"
  | functionBuiltin => "function.builtin"
  | functionCall => "function.call"
  | functionMacro => "function.macro"
  | functionMethod => "function.method"
  | functionMethodCall => "function.method.call"
  | method => "method"
  | number => "number"
  | float => "float"
  | string => "string"
  | stringDocumentation => "string.documentation"
  | stringRegexp => "string.regexp"
  | stringEscape => "string.escape"
  | stringSpecial => "string.special"
  | stringSpecialSymbol => "string.special.symbol"
  | stringSpecialUrl => "string.special.url"
  | stringSpecialPath => "string.special.path"
  | type => "type"
  | parameter => "parameter"
  | typeAlternate => "type.alternate"
  | variableBuiltin => "variable.builtin"
  | variableParameter => "variable.parameter"
  | variableParameterBuiltin => "variable.parameter.builtin"
  | variableMember => "variable.member"
  | keywordReturn => "keyword.return"
  | keywordFunction => "keyword.function"
  | identifier => "identifier"
  | operator => "operator"
  | constant => "constant"
  | constantBuiltin => "constant.builtin"
  | constantMacro => "constant.macro"
  | attributeName => "attribute"
  | attributeBuiltin => "attribute.builtin"
  | embedded => "embedded"
  | error => "error"
  | unhighlighted => "none"
  | preproc => "preproc"
  | define => "define"
  | debug => "debug"
  | exception => "exception"
  | label => "label"
  | field => "field"
  | storageClass => "storage.class"
  | symbol => "symbol"
  | namespaceName => "namespace"
  | moduleBuiltin => "module.builtin"
  | conceal => "conceal"
  | spell => "spell"
  | nospell => "nospell"
  | fold => "fold"
  | punctuation => "punctuation"
  | punctuationDelimiter => "punctuation.delimiter"
  | punctuationBracket => "punctuation.bracket"
  | punctuationSpecial => "punctuation.special"
  | escape => "escape"
  | regex => "regex"
  | annotated => "annotation"
  | documentation => "documentation"
  | emphasis => "emphasis"
  | strong => "strong"
  | link => "link"
  | linkLabel => "markup.link.label"
  | linkUrl => "markup.link.url"
  | heading => "heading"
  | heading1 => "markup.heading.1"
  | heading2 => "markup.heading.2"
  | heading3 => "markup.heading.3"
  | heading4 => "markup.heading.4"
  | heading5 => "markup.heading.5"
  | heading6 => "markup.heading.6"
  | italic => "italic"
  | bold => "bold"
  | underline => "underline"
  | strikethrough => "strikethrough"
  | title => "title"
  | literal => "literal"
  | literalBlock => "markup.raw.block"
  | uri => "uri"
  | math => "math"
  | metadata => "meta"
  | inherit => "inherit"
  | background => "background"
  | text => "text"
  | reference => "reference"
  | environment => "environment"
  | environmentName => "environment.name"
  | note => "note"
  | todo => "todo"
  | character => "character"
  | characterSpecial => "character.special"
  | escapeCharacter => "escape.character"
  | delimiter => "delimiter"
  | angle => "angle"
  | bracket => "bracket"
  | cdata => "cdata"
  | doctype => "doctype"
  | entity => "entity"
  | className => "class.name"
  | tagName => "tag.name"
  | tagAttribute => "tag.attribute"
  | tagDelimiter => "tag.delimiter"
  | templateTag => "template.tag"
  | builtinType => "builtin.type"
  | primitiveType => "primitive.type"
  | tagBuiltin => "tag.builtin"
  | typeDefinition => "type.definition"
  | keywordCoroutine => "keyword.coroutine"
  | keywordOperator => "keyword.operator"
  | keywordImport => "keyword.import"
  | keywordType => "keyword.type"
  | keywordModifier => "keyword.modifier"
  | keywordRepeat => "keyword.repeat"
  | markupQuote => "markup.quote"
  | markupList => "markup.list"
  | markupListChecked => "markup.list.checked"
  | markupListUnchecked => "markup.list.unchecked"
  | commentLine => "comment.line"
  | commentBlock => "comment.block"
  | commentError => "comment.error"
  | commentWarning => "comment.warning"
  | commentNote => "comment.note"

/-- The labels that are not made of the segments of the name. -/
def irregularLabels : List (Capture × String) := [
  (conditionalTernary, "ConditionalTernary"), (linkLabel, "LinkLabel"), (linkUrl, "LinkUrl"),
  (heading1, "Heading1"), (heading2, "Heading2"), (heading3, "Heading3"), (heading4, "Heading4"),
  (heading5, "Heading5"), (heading6, "Heading6"), (literalBlock, "LiteralBlock")]

/-- A dotted name without its dots, the letter after each dot in upper case, and the first letter
too if `start` is set. -/
def joinSegments (start : Bool) : List Char → List Char
  | [] => []
  | c :: cs =>
    if c = '.' then joinSegments true cs
    else (if start then c.toUpper else c) :: joinSegments false cs

/-- The label under which a capture is listed: as a rule the capitalized segments of its name. -/
def listedAs (c : Capture) : String :=
  match irregularLabels.lookup c with
  | some irregular => irregular
  | none => String.ofList (joinSegments true c.name.toList)

/-- The place of a capture among all of them, by which captures are ordered. -/
def rank (c : Capture) : Nat := c.ctorIdx

/-- The capture with exactly this name. -/
def ofName? (raw : String) : Option Capture := all.find? (·.name == raw)

/-- What is said of a name that no capture has. -/
def unknownMessage (raw : String) : String := "unknown capture name: " ++ raw

/-- A dotted name without its last segment and the dot before it. -/
def parentName (raw : String) : Option String :=
  match raw.toList.reverse.dropWhile (· ≠ '.') with
  | _ :: rest => some (String.ofList rest.reverse)
  | [] => none

end Capture

end LiveHighlight
