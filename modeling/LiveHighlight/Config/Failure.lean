import LiveHighlight.Decimal.Shortest
import LiveHighlight.Text.Quoted

/-! Why a configuration document is refused, and where in it the reason was found. -/

namespace LiveHighlight

/-- A value found in a document, as a message describes it. -/
inductive FoundValue
  | null
  | boolean (value : Bool)
  | integer (value : Int)
  | number (value : Float)
  | text (value : String)
  | sequence
  | map

/-- Fractions are written in positions from `0.00001` up to sixteen digits before the point, and
exponents with a sign and at least two digits. -/
def FoundValue.floatStyle : Decimal.FloatStyle := ⟨-5, 16, 2⟩

def FoundValue.describe : FoundValue → String
  | null => "null"
  | boolean b => "boolean `" ++ (if b then "true" else "false") ++ "`"
  | integer n => "integer `" ++ toString n ++ "`"
  | number x => "floating point `" ++ floatStyle.render x ++ "`"
  | text s => "string " ++ Quoted.encode s
  | sequence => "sequence"
  | map => "map"

/-- What is wrong with a document. -/
inductive ConfigProblem
  | endInList
  | endInObject
  | endInString
  | endInValue
  | expectedColon
  | expectedListEnd
  | expectedObjectEnd
  | expectedIdent
  | expectedValue
  | invalidEscape
  | invalidNumber
  | numberOutOfRange
  | controlCharacter
  | keyNotString
  | loneSurrogate
  | unfinishedSurrogate
  | trailingComma
  | trailingCharacters
  | wrongType (found : FoundValue) (expected : String)
  | wrongValue (found : FoundValue) (expected : String)
  | duplicateSetting (setting : String)

def ConfigProblem.message : ConfigProblem → String
  | endInList => "EOF while parsing a list"
  | endInObject => "EOF while parsing an object"
  | endInString => "EOF while parsing a string"
  | endInValue => "EOF while parsing a value"
  | expectedColon => "expected `:`"
  | expectedListEnd => "expected `,` or `]`"
  | expectedObjectEnd => "expected `,` or `\x7d`"
  | expectedIdent => "expected ident"
  | expectedValue => "expected value"
  | invalidEscape => "invalid escape"
  | invalidNumber => "invalid number"
  | numberOutOfRange => "number out of range"
  | controlCharacter => "control character (\\u0000-\\u001F) found while parsing a string"
  | keyNotString => "key must be a string"
  | loneSurrogate => "lone leading surrogate in hex escape"
  | unfinishedSurrogate => "unexpected end of hex escape"
  | trailingComma => "trailing comma"
  | trailingCharacters => "trailing characters"
  | wrongType found expected => "invalid type: " ++ found.describe ++ ", expected " ++ expected
  | wrongValue found expected => "invalid value: " ++ found.describe ++ ", expected " ++ expected
  | duplicateSetting setting => "duplicate field `" ++ setting ++ "`"

/-- A problem with its place: the row, counted from one, and the bytes of that row read before. -/
structure ConfigFailure where
  problem : ConfigProblem
  row : Nat
  column : Nat

def ConfigFailure.message (f : ConfigFailure) : String :=
  f.problem.message ++ " at line " ++ toString f.row ++ " column " ++ toString f.column

end LiveHighlight
