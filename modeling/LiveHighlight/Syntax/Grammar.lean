import LiveHighlight.Syntax.Regex
import LiveHighlight.Syntax.Tree

/-! Grammars as data. A rule says which tokens come in turn and how they nest into nodes; of
alternatives the first that fits is taken. Blanks and comments may stand before any token. A
comment becomes a child of the innermost node that has begun and is not complete. -/

namespace LiveHighlight

/-- The shape of a token. -/
inductive Lexeme
  /-- The longest match of an expression. -/
  | pattern (r : Regex)
  /-- The longest row of characters from a set. -/
  | run (set : CharSet)
  /-- An opening and all that follows it in its row. -/
  | toRowEnd (opening : String)
  /-- An opening and all that follows it up to the next closing. -/
  | between (opening closing : String)

/-- What a grammar allows. -/
inductive Rule
  /-- Nothing at all. -/
  | nothing
  /-- A named token. -/
  | token (kind : String) (shape : Lexeme)
  /-- A token without a name of its own, with exactly this text. -/
  | literal (text : String)
  /-- A word that is not reserved, as a named token. -/
  | word (kind : String)
  /-- One of some words, as a named token. -/
  | oneWord (kind : String) (words : List String)
  /-- A rule of the grammar by its name. -/
  | ref (name : String)
  /-- A named node around what another rule allows. -/
  | node (kind : String) (body : Rule)
  /-- What another rule allows, in a field of the node around it. -/
  | field (name : String) (body : Rule)
  | both (first second : Rule)
  | either (first second : Rule)
  /-- Any number in a row. -/
  | many (body : Rule)
  /-- Without a blank or comment in front. -/
  | joined (body : Rule)
  /-- In the row of the token before. -/
  | inRow (body : Rule)
  /-- At the column of the block around it. -/
  | aligned (body : Rule)
  /-- A block of its own, further to the right than the block around it. -/
  | indented (body : Rule)
  /-- A head, wrapped into a node by each tail that follows it. -/
  | wrapped (head tail : Rule)
  /-- The node that a tail wraps. -/
  | wrappedNode

/-- A grammar: the rule of a whole text, rules by name, and the shapes of comments. -/
structure LanguageGrammar where
  name : String
  /-- The kind of the node around a whole text. -/
  root : String
  /-- What a text consists of, in any number. -/
  item : Rule
  rules : List (String × Rule) := []
  comments : List (String × Lexeme) := []
  /-- The characters that words begin with and those that they go on with. -/
  wordStart : CharSet := ⟨[], false⟩
  wordRest : CharSet := ⟨[], false⟩
  reserved : List String := []
  /-- Signs of several characters. No shorter sign is read where one of them stands. -/
  signs : List String := []
  /-- Names that queries may use beside those in the rules. -/
  otherKinds : List String := []
  otherFields : List String := []
  otherLiterals : List String := []

namespace Rule

/-- Rules in turn. -/
def seq : List Rule → Rule
  | [] => nothing
  | [r] => r
  | r :: rs => both r (seq rs)

/-- The first rule that fits. -/
def oneOf : List Rule → Rule
  | [] => nothing
  | [r] => r
  | r :: rs => either r (oneOf rs)

/-- A rule that may be left out. -/
def optional (r : Rule) : Rule := either r nothing

/-- One or more, with a separator between two. -/
def separated (r separator : Rule) : Rule := both r (many (both separator r))

/-- One or more. -/
def oneOrMore (r : Rule) : Rule := both r (many r)

/-- Any number of a rule with commas between them. -/
def commas (r : Rule) : Rule := optional (separated r (literal ","))

/-- A binary operation: an operand, and each operator and operand behind it wrapped around what
comes before. -/
def binary (kind : String) (operators : List String) (operand : Rule) : Rule :=
  wrapped operand (node kind (seq [field "left" wrappedNode,
    field "operator" (oneOf (operators.map literal)), field "right" operand]))

/-- The rules of binary operations by levels of operators, the loosest first. The first rule has the
given name. -/
def levels (kind name : String) (operand : Rule) : List (List String) → List (String × Rule)
  | [] => [(name, operand)]
  | operators :: tighter =>
    let inner := name ++ " of tighter operators"
    (name, binary kind operators (ref inner)) :: levels kind inner operand tighter

/-- The names in a rule: kinds of named nodes, fields, and literal tokens. -/
def names : Rule → List String × List String × List String
  | token kind _ => ([kind], [], [])
  | word kind => ([kind], [], [])
  | oneWord kind _ => ([kind], [], [])
  | literal text => ([], [], [text])
  | node kind body =>
    let (kinds, fields, literals) := body.names
    (kind :: kinds, fields, literals)
  | field name body =>
    let (kinds, fields, literals) := body.names
    (kinds, name :: fields, literals)
  | both a b | either a b | wrapped a b =>
    let (kinds, fields, literals) := a.names
    let (kinds', fields', literals') := b.names
    (kinds ++ kinds', fields ++ fields', literals ++ literals')
  | many r | joined r | inRow r | aligned r | indented r => r.names
  | nothing | ref _ | wrappedNode => ([], [], [])

end Rule

namespace LanguageGrammar

/-- All rules of a grammar. -/
def allRules (g : LanguageGrammar) : List Rule := g.item :: g.rules.map Prod.snd

/-- The kinds of named nodes that a query may ask for. -/
def kinds (g : LanguageGrammar) : List String :=
  g.root :: g.comments.map Prod.fst ++ g.otherKinds ++ g.allRules.flatMap fun r => r.names.1

/-- The fields that a query may ask for. -/
def fields (g : LanguageGrammar) : List String :=
  g.otherFields ++ g.allRules.flatMap fun r => r.names.2.1

/-- The literal tokens that a query may ask for. -/
def literals (g : LanguageGrammar) : List String :=
  g.otherLiterals ++ g.allRules.flatMap fun r => r.names.2.2

end LanguageGrammar

end LiveHighlight
