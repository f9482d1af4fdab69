import LiveHighlight.Syntax.Grammar
import LiveHighlight.Syntax.Query.Basic
import LiveHighlight.Text.Utf8

/-! Queries read from their text. Blanks separate, a semicolon opens a comment, and every name of a
node or field must be one of the grammar's. -/

namespace LiveHighlight

/-- What is wrong with the text of a query. -/
inductive QueryProblem
  | unknownKind (name : String)
  | unknownField (name : String)
  | misplaced
deriving DecidableEq, Repr, Inhabited

/-- A problem and the bytes of text left from its place on. -/
structure QueryFailure where
  problem : QueryProblem
  left : Nat
deriving DecidableEq, Repr, Inhabited

namespace QueryFailure

/-- The rows of a text with the offsets at which they begin. -/
def rowsFrom (offset : Nat) (row : List Char) : List Char → List (Nat × List Char)
  | [] => if row.isEmpty then [] else [(offset, row.reverse)]
  | c :: cs =>
    if c = '\n' then
      (offset, row.reverse) :: rowsFrom (offset + Utf8.byteLength row.reverse + 1) [] cs
    else rowsFrom offset (c :: row) cs

/-- Where and why a text is no query. Rows and columns count from one. A misplaced sign is shown
below its row, and past the last row it is the end of the text that is not expected. -/
def message (f : QueryFailure) (text : String) : String :=
  let offset := text.utf8ByteSize - f.left
  let rows := rowsFrom 0 [] text.toList
  let number := (rows.takeWhile fun (start, row) =>
    start + Utf8.byteLength row + 1 ≤ offset).length
  let column := offset - ((rows[number]?.map (·.1)).getD text.utf8ByteSize)
  let place := "Query error at " ++ toString (number + 1) ++ ":" ++ toString (column + 1) ++ ". "
  match f.problem with
  | .unknownKind name => place ++ "Invalid node type " ++ name
  | .unknownField name => place ++ "Invalid field name " ++ name
  | .misplaced =>
    match rows[number]? with
    | some (_, row) =>
      place ++ "Invalid syntax:\n" ++ String.ofList row ++ "\n" ++
        String.ofList (List.replicate column ' ') ++ "^"
    | none => place ++ "Invalid syntax:\nUnexpected EOF"

end QueryFailure

/-- The names of nodes and fields that a query may use. -/
structure QueryVocabulary where
  kinds : List String
  fields : List String
  literals : List String

/-- How far a query has been read: what is left of its text and the names of captures so far. -/
structure QueryReader where
  rest : List Char
  names : List String := []
deriving Inhabited

/-- A part of a query, read from its text. -/
abbrev QueryStep (α : Type) := QueryReader → Except QueryFailure (α × QueryReader)

namespace QueryReader

def fail {α : Type} (problem : QueryProblem) (place : List Char) : Except QueryFailure α :=
  .error ⟨problem, Utf8.byteLength place⟩

/-- Whether a character can begin a name. -/
def beginsName (c : Char) : Bool := c.isAlphanum || c == '_' || c == '-'

/-- Whether a character can stand in a name. -/
def continuesName (c : Char) : Bool := beginsName c || c == '.' || c == '?' || c == '!'

/-- The text past blanks and comments. -/
def skip : List Char → (comment : Bool) → List Char
  | [], _ => []
  | c :: cs, true => skip cs (c ≠ '\n')
  | c :: cs, false =>
    if c = ';' then skip cs true else if CharSet.blank.holds c then skip cs false else c :: cs

/-- The reader past blanks and comments. -/
def skipBlanks (s : QueryReader) : QueryReader := { s with rest := skip s.rest false }

/-- A name and the text after it. -/
def name (text : List Char) : String × List Char :=
  (String.ofList (text.takeWhile continuesName), text.dropWhile continuesName)

/-- A quoted text after its opening quote, and what follows its closing one. -/
def quoted : List Char → Option (List Char × List Char)
  | [] => none
  | '"' :: rest => some ([], rest)
  | '\\' :: c :: rest =>
    let here := if c = 'n' then '\n' else if c = 't' then '\t' else if c = 'r' then '\r' else c
    (quoted rest).map fun (text, rest) => (here :: text, rest)
  | c :: rest => (quoted rest).map fun (text, rest) => (c :: text, rest)

/-- The index of a capture's name; a new name comes last. -/
def index (s : QueryReader) (name : String) : Nat × QueryReader :=
  match s.names.idxOf? name with
  | some i => (i, s)
  | none => (s.names.length, { s with names := s.names ++ [name] })

/-- The captures behind a pattern, `count` at most. -/
def captures : Nat → List Nat → QueryStep (List Nat)
  | 0, found, s => .ok (found, s)
  | count + 1, found, s =>
    let past := s.skipBlanks
    match past.rest with
    | '@' :: rest =>
      if rest.head?.any beginsName then
        let (name, rest) := name rest
        let (i, s) := { s with rest }.index name
        captures count (found ++ [i]) s
      else fail .misplaced rest
    | _ => .ok (found, past)

/-- The arguments of a condition: captures by their index, and texts. -/
inductive Argument
  | capture (index : Nat)
  | text (s : String)

/-- The arguments of a condition up to its closing parenthesis, `count` at most. -/
def arguments : Nat → QueryStep (List Argument)
  | 0, s => fail .misplaced s.rest
  | count + 1, s =>
    let s := s.skipBlanks
    match s.rest with
    | ')' :: rest => .ok ([], { s with rest })
    | '@' :: rest => do
      let (name, rest) := name rest
      let (i, s) := { s with rest }.index name
      let (more, s) ← arguments count s
      return (.capture i :: more, s)
    | '"' :: rest => do
      match quoted rest with
      | none => fail .misplaced []
      | some (text, rest) =>
        let (more, s) ← arguments count { s with rest }
        return (.text (String.ofList text) :: more, s)
    | c :: _ =>
      if beginsName c then do
        let (word, rest) := name s.rest
        let (more, s) ← arguments count { s with rest }
        return (.text word :: more, s)
      else fail .misplaced s.rest
    | [] => fail .misplaced []

/-- The condition of a name and arguments. Conditions of other names always hold. -/
def condition (name : String) : List Argument → List TextCondition
  | [.capture i, .text t] =>
    if name = "eq?" then [.equals i t true]
    else if name = "not-eq?" then [.equals i t false]
    else if name = "match?" then [.matches i (.ofString t) true]
    else if name = "not-match?" then [.matches i (.ofString t) false]
    else []
  | _ => []

/-- What stands between parentheses or brackets: a pattern or conditions. -/
inductive Part
  | pattern (p : NodePattern)
  | conditions (cs : List TextCondition)

/-- The patterns among some parts. -/
def patternsOf (parts : List Part) : List NodePattern :=
  parts.filterMap fun | .pattern p => some p | .conditions _ => none

/-- The conditions among some parts. -/
def conditionsOf (parts : List Part) : List TextCondition :=
  parts.flatMap fun | .pattern _ => [] | .conditions cs => cs

/-- A pattern with the captures behind it. -/
def withCaptures (p : NodePattern) (conditions : List TextCondition) :
    QueryStep (List Part) := fun s => do
  let (found, s) ← captures s.rest.length [] s
  return ([.pattern (p.capturing found), .conditions conditions], s)

mutual

/-- One pattern with all conditions inside it, or a condition. The count bounds the steps. -/
def part (v : QueryVocabulary) : Nat → QueryStep (List Part)
  | 0, s => fail .misplaced s.rest
  | count + 1, s =>
    match s.rest with
    | '(' :: '#' :: rest => do
      let (name, rest) := name rest
      let (args, s) ← arguments rest.length { s with rest }
      return ([.conditions (condition name args)], s)
    | '(' :: rest => do
      let s := { s with rest }.skipBlanks
      match s.rest with
      | [] => fail .misplaced []
      | c :: _ =>
        if c = '(' ∨ c = '[' ∨ c = '"' then
          let (parts, s) ← parts v ')' count s
          match patternsOf parts with
          | [p] => withCaptures p (conditionsOf parts) s
          | _ => fail .misplaced s.rest
        else if beginsName c then
          let (kind, rest) := name s.rest
          let test ←
            if kind = "_" then pure NodeTest.anyNamed
            else if v.kinds.contains kind then pure (NodeTest.named kind)
            else fail (.unknownKind kind) s.rest
          let (parts, s) ← parts v ')' count { s with rest }
          withCaptures (.node test (patternsOf parts) []) (conditionsOf parts) s
        else fail .misplaced s.rest
    | '[' :: rest => do
      let (parts, s) ← parts v ']' count { s with rest }
      withCaptures (.either (patternsOf parts) []) (conditionsOf parts) s
    | '"' :: rest =>
      match quoted rest with
      | none => fail .misplaced []
      | some (text, after) =>
        let text := String.ofList text
        if v.literals.contains text then
          withCaptures (.node (.literal text) [] []) [] { s with rest := after }
        else fail (.unknownKind text) rest
    | c :: _ =>
      if beginsName c then do
        let (word, rest) := name s.rest
        let after := { s with rest }.skipBlanks
        match after.rest with
        | ':' :: rest =>
          if v.fields.contains word then
            let (parts, s) ← part v count { after with rest }.skipBlanks
            match patternsOf parts with
            | [p] => return ([.pattern (.inField word p), .conditions (conditionsOf parts)], s)
            | _ => fail .misplaced s.rest
          else fail (.unknownField word) s.rest
        | _ =>
          if word = "_" then withCaptures (.node .any [] []) [] after
          else fail .misplaced after.rest
      else fail .misplaced s.rest
    | [] => fail .misplaced []

/-- All parts up to a closing sign. -/
def parts (v : QueryVocabulary) (closing : Char) : Nat → QueryStep (List Part)
  | 0, s => fail .misplaced s.rest
  | count + 1, s =>
    let s := s.skipBlanks
    match s.rest with
    | [] => fail .misplaced []
    | c :: rest =>
      if c = closing then .ok ([], { s with rest })
      else do
        let (first, s) ← part v count s
        let (more, s) ← parts v closing count s
        return (first ++ more, s)

end

/-- All patterns of a query, `count` at most. -/
def patterns (v : QueryVocabulary) : Nat → QueryStep (List QueryPattern)
  | 0, s => .ok ([], s)
  | count + 1, s =>
    let s := s.skipBlanks
    if s.rest.isEmpty then .ok ([], s)
    else do
      let (parts, s) ← part v (2 * s.rest.length) s
      match patternsOf parts with
      | [root] =>
        let (more, s) ← patterns v count s
        return (⟨root, conditionsOf parts⟩ :: more, s)
      | _ => fail .misplaced s.rest

end QueryReader

/-- The query that a text writes. -/
def TreeQuery.read (v : QueryVocabulary) (text : String) : Except QueryFailure TreeQuery := do
  let (patterns, s) ← QueryReader.patterns v (text.length + 1) ⟨text.toList, []⟩
  return ⟨patterns, s.names⟩

end LiveHighlight
