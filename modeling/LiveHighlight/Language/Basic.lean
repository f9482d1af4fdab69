/-! The languages that come with a grammar, and how a file's name tells its language. -/

namespace LiveHighlight

/-- A language. -/
inductive Language
  | rust
  | python
  | javaScript
  | typeScript
  | c
  | cpp
  | json
  | go
  | plainText
deriving DecidableEq, Repr

/-- Unless a language is known a text is plain. -/
instance : Inhabited Language := ⟨.plainText⟩

namespace Language

/-- All languages, in the order in which a host lists them. -/
def all : List Language :=
  [rust, python, javaScript, typeScript, c, cpp, json, go, plainText]

/-- The identifier of a language. -/
def id : Language → String
  | rust => "rust"
  | python => "python"
  | javaScript => "javascript"
  | typeScript => "typescript"
  | c => "c"
  | cpp => "cpp"
  | json => "json"
  | go => "go"
  | plainText => "plaintext"

/-- The name of a language for readers. -/
def name : Language → String
  | rust => "Rust"
  | python => "Python"
  | javaScript => "JavaScript"
  | typeScript => "TypeScript"
  | c => "C"
  | cpp => "C++"
  | json => "JSON"
  | go => "Go"
  | plainText => "Plain Text"

/-- The label of a language: its name as one word. -/
def label : Language → String
  | cpp => "Cpp"
  | json => "Json"
  | plainText => "PlainText"
  | other => other.name

/-- The endings of the names of a language's files, in lower case. -/
def extensions : Language → List String
  | rust => ["rs"]
  | python => ["py", "pyw", "pyi"]
  | javaScript => ["js", "jsx", "mjs", "cjs"]
  | typeScript => ["ts", "tsx", "mts", "cts"]
  | c => ["c", "h"]
  | cpp => ["cpp", "cc", "cxx", "c++", "hpp", "hh", "hxx", "h++"]
  | json => ["json", "jsonc", "json5"]
  | go => ["go"]
  | plainText => []

/-- The language of a file name's ending. Case does not count. Only ASCII letters are folded: no
other character becomes one of the letters that endings are made of. -/
def ofExtension (ending : String) : Language :=
  (all.find? (·.extensions.contains ending.toLower)).getD .plainText

/-- The language of an identifier; the case of ASCII letters does not count. -/
def ofId? (id : String) : Option Language := all.find? (·.id == id.toLower)

/-- The parts of a path, without those that stay where they are. -/
def pathParts (path : String) : List String := (path.splitOn "/").filter fun s => s ≠ "" ∧ s ≠ "."

/-- The file's name in a path, if it ends in one. -/
def fileName (path : String) : Option String := (pathParts path).getLast?.filter (· ≠ "..")

/-- What follows the last dot of a file's name, if something comes before that dot. -/
def nameEnding (name : String) : Option String :=
  match name.toList.reverse.dropWhile (· ≠ '.') with
  | _ :: _ :: _ => some (String.ofList (name.toList.reverse.takeWhile (· ≠ '.')).reverse)
  | _ => none

/-- The language of a file, by the ending of its name. -/
def ofPath (path : String) : Language :=
  (((fileName path).bind nameEnding).map ofExtension).getD .plainText

end Language

end LiveHighlight
