import LiveHighlight.ByteRange

/-! What the arguments of the command line ask for. An argument is an option with a value behind it,
a flag, or the name of the file; options and the name may come in any order. -/

namespace LiveHighlight

/-- An edit asked for on the command line: a range and the text to put there. -/
structure EditScript where
  range : ByteRange
  text : String
deriving DecidableEq, Repr, Inhabited

/-- Why a text is no edit script. -/
inductive ScriptProblem
  | noText (script : String)
  | noRange (range : String)
  | badStart (number : String)
  | badEnd (number : String)
deriving DecidableEq, Repr, Inhabited

def ScriptProblem.message : ScriptProblem → String
  | noText script => "edit '" ++ script ++ "' is missing '='"
  | noRange range => "edit range '" ++ range ++ "' is not START..END"
  | badStart number => "bad edit start '" ++ number ++ "'"
  | badEnd number => "bad edit end '" ++ number ++ "'"

namespace EditScript

/-- What comes before the first separator in a text, and what comes after it. -/
def splitAt (separator : List Char) : List Char → Option (List Char × List Char)
  | [] => none
  | c :: cs =>
    if separator.isPrefixOf (c :: cs) then some ([], (c :: cs).drop separator.length)
    else (splitAt separator cs).map fun (before, after) => (c :: before, after)

/-- The value of decimal digits. -/
def digitsValue (digits : List Char) : Nat :=
  digits.foldl (fun n c => n * 10 + (c.toNat - '0'.toNat)) 0

/-- An offset in decimal digits, which may have a plus sign in front. -/
def readOffset (text : List Char) : Option Nat :=
  let digits := match text with | '+' :: rest => rest | _ => text
  if digits.isEmpty ∨ !digits.all Char.isDigit ∨ wordSize ≤ digitsValue digits then none
  else some (digitsValue digits)

/-- A text with each backslash before an n taken for a newline together with it. -/
def unescape : List Char → List Char
  | '\\' :: 'n' :: rest => '\n' :: unescape rest
  | c :: rest => c :: unescape rest
  | [] => []

/-- The edit that a script such as `3..5=text` asks for. -/
def read (script : String) : Except ScriptProblem EditScript :=
  match splitAt ['='] script.toList with
  | none => .error (.noText script)
  | some (range, text) =>
    match splitAt ['.', '.'] range with
    | none => .error (.noRange (String.ofList range))
    | some (start, stop) =>
      match readOffset start, readOffset stop with
      | some a, some b => .ok ⟨⟨a, b⟩, String.ofList (unescape text)⟩
      | none, _ => .error (.badStart (String.ofList start))
      | some _, none => .error (.badEnd (String.ofList stop))

end EditScript

/-- The options that take a value. -/
inductive ValueOption
  | language
  | theme
  | config
  | edit
deriving DecidableEq, Repr, Inhabited

namespace ValueOption

def all : List ValueOption := [language, theme, config, edit]

/-- The long spelling of an option. -/
def longName : ValueOption → String
  | language => "--language"
  | theme => "--theme"
  | config => "--config"
  | edit => "--edit"

/-- The short spelling of an option. -/
def shortName : ValueOption → String
  | language => "-l"
  | theme => "-t"
  | config => "-c"
  | edit => "-e"

/-- The option that an argument spells. -/
def ofArgument? (argument : String) : Option ValueOption :=
  all.find? fun o => o.longName == argument || o.shortName == argument

end ValueOption

/-- What is wrong with the arguments. -/
inductive ArgumentProblem
  | missingValue (option : ValueOption)
  | badScript (problem : ScriptProblem)
  | unknownOption (argument : String)
  | unexpected (argument : String)
deriving DecidableEq, Repr, Inhabited

def ArgumentProblem.message : ArgumentProblem → String
  | missingValue option => option.longName ++ " needs a value"
  | badScript problem => problem.message
  | unknownOption argument => "unknown option '" ++ argument ++ "'"
  | unexpected argument => "unexpected argument '" ++ argument ++ "'"

/-- What the command line asks for. -/
structure Options where
  file : Option String := none
  language : Option String := none
  theme : Option String := none
  config : Option String := none
  edits : List EditScript := []
  stats : Bool := false
deriving DecidableEq, Repr, Inhabited

namespace Options

/-- The options with one more. Of several values the last one counts, but every edit does. -/
def set (o : Options) (option : ValueOption) (value : String) : Except ArgumentProblem Options :=
  match option with
  | .language => .ok { o with language := some value }
  | .theme => .ok { o with theme := some value }
  | .config => .ok { o with config := some value }
  | .edit =>
    match EditScript.read value with
    | .ok script => .ok { o with edits := o.edits ++ [script] }
    | .error problem => .error (.badScript problem)

/-- The options with an argument that is neither an option with a value nor its value. -/
def setPlain (o : Options) (argument : String) : Except ArgumentProblem Options :=
  if argument = "--stats" then .ok { o with stats := true }
  else if argument.toList.head? = some '-' then .error (.unknownOption argument)
  else if o.file.isNone then .ok { o with file := some argument }
  else .error (.unexpected argument)

/-- The options with those of further arguments. -/
def readFrom (o : Options) : List String → Except ArgumentProblem Options
  | [] => .ok o
  | argument :: rest =>
    match ValueOption.ofArgument? argument with
    | some option =>
      match rest with
      | [] => .error (.missingValue option)
      | value :: rest => do readFrom (← o.set option value) rest
    | none => do readFrom (← o.setPlain argument) rest

/-- What some arguments ask for. -/
def read (arguments : List String) : Except ArgumentProblem Options := readFrom {} arguments

end Options

end LiveHighlight
