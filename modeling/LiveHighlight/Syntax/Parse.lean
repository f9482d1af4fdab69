import LiveHighlight.Syntax.Grammar
import LiveHighlight.Text.Utf8

/-! The tree that a grammar gives a text. Every text has one: a character that fits nowhere becomes
a node of its own and reading goes on after it. -/

namespace LiveHighlight

/-- The kind of a character that no rule allows. -/
def NodeKind.misplaced : NodeKind := ⟨"ERROR", true, true⟩

/-- The kind of the empty node at the end of every text. -/
def NodeKind.endOfText : NodeKind := ⟨"end", false, false⟩

namespace Lexeme

/-- The number of characters before the first place where a text begins with `closing`. -/
def lengthBefore (closing : List Char) : List Char → Option Nat
  | [] => if closing.isEmpty then some 0 else none
  | c :: cs =>
    if closing.isPrefixOf (c :: cs) then some 0 else (lengthBefore closing cs).map (· + 1)

/-- The number of characters of a token of this shape at the beginning of a text. -/
def length : Lexeme → List Char → Option Nat
  | pattern r, text => r.longest text
  | run set, text =>
    let n := (text.takeWhile set.holds).length
    if n = 0 then none else some n
  | toRowEnd opening, text =>
    if opening.toList.isPrefixOf text then some (text.takeWhile (· ≠ '\n')).length else none
  | between opening closing, text =>
    if opening.toList.isPrefixOf text then
      (lengthBefore closing.toList (text.drop opening.length)).map
        (· + opening.length + closing.length)
    else none

end Lexeme

/-- How far a text has been read. -/
structure ParseState where
  /-- The text that is left. -/
  rest : List Char
  /-- The bytes of the text before that. -/
  offset : Nat := 0
  /-- The bytes of blanks since the last token. -/
  padding : Nat := 0
  column : Nat := 0
  /-- The column of the block that is read. -/
  margin : Nat := 0
  /-- Whether a row has begun since the last token. -/
  newRow : Bool := false
  /-- Whether the next token must come without a blank or comment in front. -/
  joined : Bool := false
  /-- A node that waits to be wrapped. -/
  waiting : Option SyntaxNode := none

/-- A step of reading: the nodes it makes and the state after it. -/
abbrev ParseStep := ParseState → Option (List SyntaxNode × ParseState)

namespace ParseState

/-- The column after some characters. -/
def columnAfter (column : Nat) (text : List Char) : Nat :=
  text.foldl (fun n c => if c = '\n' then 0 else n + 1) column

/-- The state past blanks. -/
def skipBlanks (s : ParseState) : ParseState :=
  let blanks := s.rest.takeWhile CharSet.blank.holds
  if blanks.isEmpty then s
  else
    let bytes := Utf8.byteLength blanks
    { s with
      rest := s.rest.drop blanks.length
      offset := s.offset + bytes
      padding := s.padding + bytes
      column := columnAfter s.column blanks
      newRow := s.newRow || blanks.contains '\n' }

/-- A token of some characters, and the state after it. -/
def take (s : ParseState) (kind : NodeKind) (characters : Nat) : SyntaxNode × ParseState :=
  let text := s.rest.take characters
  let bytes := Utf8.byteLength text
  (.leaf kind s.padding bytes,
    { s with
      rest := s.rest.drop characters
      offset := s.offset + bytes
      padding := 0
      column := columnAfter s.column text
      newRow := false
      joined := false })

/-- The next comment, if one comes next. -/
def comment (g : LanguageGrammar) (s : ParseState) : Option (SyntaxNode × ParseState) :=
  g.comments.findSome? fun (kind, shape) => (shape.length s.rest).map (s.take ⟨kind, true, true⟩)

/-- Comments before the next token, no more than there are characters, and the state before that
token. A comment leaves open whether a row has begun. -/
def skipExtras (g : LanguageGrammar) : List Char → ParseState → List SyntaxNode × ParseState
  | [], s => ([], s)
  | _ :: characters, s =>
    let s := s.skipBlanks
    match s.comment g with
    | some (node, next) =>
      let (nodes, next) := skipExtras g characters { next with newRow := s.newRow }
      (node :: nodes, next)
    | none => ([], s)

/-- Comments before the next token, and the state before that token. -/
def extras (g : LanguageGrammar) (s : ParseState) : List SyntaxNode × ParseState :=
  if s.joined then ([], s) else skipExtras g s.rest s

/-- Whether a literal comes next. One that ends like a word must end where the word ends, and one
that a longer sign begins with must not be part of that. -/
def startsWith (g : LanguageGrammar) (s : ParseState) (text : List Char) : Bool :=
  text.isPrefixOf s.rest &&
    !(text.getLast?.any g.wordRest.holds && (s.rest.drop text.length).head?.any g.wordRest.holds) &&
    !(g.signs.any fun sign => text.length < sign.length && text.isPrefixOf sign.toList &&
      sign.toList.isPrefixOf s.rest)

/-- The length of the word that comes next, if it is as wanted. -/
def wordLength (g : LanguageGrammar) (s : ParseState) (wanted : String → Bool) : Option Nat :=
  if s.rest.head?.any g.wordStart.holds then
    let word := s.rest.takeWhile g.wordRest.holds
    if wanted (String.ofList word) then some word.length else none
  else none

/-- A token after what may stand before it. -/
def token (g : LanguageGrammar) (kind : NodeKind) (length : ParseState → Option Nat) : ParseStep :=
  fun s => do
    let (before, s) := s.extras g
    let n ← length s
    if n = 0 then none
    else
      let (node, s) := s.take kind n
      return (before ++ [node], s)

/-- A step again and again as long as it reads something, not more often than there are characters.
The nodes so far are in reverse. -/
def again (step : ParseStep) : List Char → List SyntaxNode → ParseStep
  | [], found, s => some (found.reverse, s)
  | _ :: characters, found, s =>
    match step s with
    | some (nodes, next) =>
      if s.offset < next.offset then again step characters (nodes.reverseAux found) next
      else some (found.reverse, s)
    | none => some (found.reverse, s)

/-- A node wrapped by a step again and again, not more often than there are characters. The comments
before the node stay before it. -/
def wrapAgain (step : ParseStep) : List Char → List SyntaxNode → SyntaxNode → ParseStep
  | [], before, node, s => some (before ++ [node], s)
  | _ :: characters, before, node, s =>
    match step { s with waiting := some node } with
    | some ([outer], next) =>
      if next.waiting.isNone && s.offset < next.offset then
        wrapAgain step characters before outer next
      else some (before ++ [node], s)
    | _ => some (before ++ [node], s)

end ParseState

/-- The nodes in a field of the node around them. Comments fill no field. -/
def SyntaxNode.fill (g : LanguageGrammar) (field : String) (n : SyntaxNode) : SyntaxNode :=
  if g.comments.any (·.1 == n.kind.name) then n else n.inField field

namespace Rule

/-- A rule as a step of reading. The count bounds how deep rules nest. -/
def step (g : LanguageGrammar) : Nat → Rule → ParseStep
  | 0, _, _ => none
  | _ + 1, nothing, s => some ([], s)
  | _ + 1, token kind shape, s =>
    ParseState.token g ⟨kind, true, true⟩ (fun s => shape.length s.rest) s
  | _ + 1, literal text, s =>
    ParseState.token g ⟨text, false, true⟩
      (fun s => if s.startsWith g text.toList then some text.length else none) s
  | _ + 1, word kind, s =>
    ParseState.token g ⟨kind, true, true⟩ (·.wordLength g fun w => !g.reserved.contains w) s
  | _ + 1, oneWord kind words, s =>
    ParseState.token g ⟨kind, true, true⟩ (·.wordLength g words.contains) s
  | count + 1, ref name, s => do
    let r ← g.rules.lookup name
    step g count r s
  | count + 1, node kind body, s => do
    let (before, s) := if s.waiting.isSome then ([], s) else s.extras g
    let (children, next) ← step g count body s
    if children.isEmpty then none
    else return (before ++ [.branch ⟨kind, true, true⟩ children], next)
  | count + 1, field name body, s => do
    let (nodes, next) ← step g count body s
    return (nodes.map (SyntaxNode.fill g name), next)
  | count + 1, both first second, s => do
    let (nodes, s) ← step g count first s
    let (more, s) ← step g count second s
    return (nodes ++ more, s)
  | count + 1, either first second, s =>
    match step g count first s with
    | some result => some result
    | none => step g count second s
  | count + 1, many body, s => ParseState.again (step g count body) s.rest [] s
  | count + 1, joined body, s => step g count body { s with joined := true }
  | count + 1, inRow body, s =>
    if (s.extras g).2.newRow then none else step g count body s
  | count + 1, aligned body, s =>
    if (s.extras g).2.column = s.margin then step g count body s else none
  | count + 1, indented body, s => do
    let column := (s.extras g).2.column
    if column ≤ s.margin then none
    else
      let (nodes, next) ← step g count body { s with margin := column }
      return (nodes, { next with margin := s.margin })
  | count + 1, wrapped head tail, s => do
    let (nodes, next) ← step g count head s
    match nodes.reverse with
    | inner :: before =>
      ParseState.wrapAgain (step g count tail) next.rest before.reverse inner next
    | [] => none
  | _ + 1, wrappedNode, s => do
    let inner ← s.waiting
    return ([inner], { s with waiting := none })

end Rule

namespace LanguageGrammar

/-- How deep the rules nest for a text of this many characters. -/
def depth (characters : Nat) : Nat := 100 * (characters + 10)

/-- The items of a text and the comments between them, in reverse after those `found`, and the
state at the end of the text. A character that fits nowhere is read as misplaced. -/
def items (g : LanguageGrammar) (nesting : Nat) :
    Nat → List SyntaxNode → ParseState → List SyntaxNode × ParseState
  | 0, found, s => (found, s)
  | count + 1, found, s =>
    match g.item.step g nesting s with
    | some (node :: nodes, next) =>
      if s.offset < next.offset then items g nesting count ((node :: nodes).reverseAux found) next
      else (found, s)
    | _ =>
      let (before, s) := s.extras g
      let found := before.reverseAux found
      if s.rest.isEmpty then (found, s)
      else
        let (node, next) := s.take .misplaced 1
        items g nesting count (node :: found) next

/-- The tree of a text. Its last child is empty and has the blanks at the end as its padding. -/
def parse (g : LanguageGrammar) (text : List Char) : SyntaxNode :=
  let (found, s) := g.items (depth text.length) (text.length + 1) [] { rest := text }
  .branch ⟨g.root, true, true⟩ (found.reverse ++ [.leaf .endOfText s.padding 0])

end LanguageGrammar

end LiveHighlight
