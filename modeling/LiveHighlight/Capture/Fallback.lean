import LiveHighlight.Capture.Basic

/-! From special captures to more general ones. A dotted name resolves to the longest beginning of
it, cut at a dot, that names a capture. A capture falls back to the one a fixed list gives for it,
or else to the one its name resolves to without its last segment; one with neither falls back to
itself. -/

namespace LiveHighlight.Capture

/-- The capture that a name or the longest of its dotted beginnings names. The count bounds the
segments to drop. -/
def resolveWithin : Nat → String → Option Capture
  | 0, raw => ofName? raw
  | count + 1, raw =>
    match ofName? raw with
    | some capture => some capture
    | none => (parentName raw).bind (resolveWithin count)

/-- The capture that a dotted name of a query stands for. -/
def resolve (raw : String) : Option Capture := resolveWithin raw.length raw

/-- The fallbacks that names do not show. They come before the rule of names. -/
def fixedFallbacks : List (Capture × Capture) := [
  (inclusion, keywordImport), (constructor, type), (boolean, constantBuiltin),
  (repetition, keywordRepeat), (conditional, keyword), (conditionalTernary, operator),
  (method, functionMethod), (float, number), (parameter, variableParameter),
  (field, variableMember), (variableMember, property), (define, preproc), (debug, keyword),
  (exception, keyword), (storageClass, keywordModifier), (symbol, stringSpecialSymbol),
  (moduleBuiltin, namespaceName), (delimiter, punctuationDelimiter), (angle, punctuationBracket),
  (bracket, punctuationBracket), (stringEscape, escape), (escapeCharacter, escape),
  (regex, stringRegexp), (annotated, attributeName), (documentation, comment),
  (stringDocumentation, documentation), (strong, bold), (emphasis, italic), (linkLabel, link),
  (linkUrl, uri), (stringSpecialUrl, uri), (heading1, heading), (heading2, heading),
  (heading3, heading), (heading4, heading), (heading5, heading), (heading6, heading),
  (heading, title), (literalBlock, literal), (markupQuote, comment),
  (markupList, punctuationSpecial), (character, string), (cdata, string), (entity, constant),
  (doctype, tag), (className, type), (templateTag, tag), (builtinType, type),
  (primitiveType, builtinType), (typeDefinition, type), (todo, commentNote), (note, commentNote)]

/-- The next more general capture, or the capture itself. -/
def fallback (c : Capture) : Capture :=
  match fixedFallbacks.lookup c with
  | some general => general
  | none =>
    ((parentName c.name).bind (resolveWithin c.name.length)).getD c

/-- A capture and its fallbacks, `count` of them at most. -/
def chainWithin : Nat → Capture → List Capture
  | 0, c => [c]
  | count + 1, c => if c.fallback = c then [c] else c :: chainWithin count c.fallback

/-- A capture and all its fallbacks, in turn. -/
def fallbackChain (c : Capture) : List Capture := chainWithin all.length c

end LiveHighlight.Capture
