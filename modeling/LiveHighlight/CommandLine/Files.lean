import LiveHighlight.Language.Basic

/-! Files by their names, as the command line reads them. -/

namespace LiveHighlight

/-- Why a file cannot be read. -/
inductive FileProblem
  | missing
  | notDirectory
  | isDirectory
  | other (reason : String)
deriving DecidableEq, Repr, Inhabited

/-- The system's text for a problem, with its number. -/
def FileProblem.message : FileProblem → String
  | missing => "No such file or directory (os error 2)"
  | notDirectory => "Not a directory (os error 20)"
  | isDirectory => "Is a directory (os error 21)"
  | other reason => reason

/-- Reads a file by its path. -/
abbrev FileReader := String → Except FileProblem String

/-- Files below a directory: their paths from there and their texts. -/
structure FileTree where
  files : List (String × String)
deriving Inhabited

namespace FileTree

/-- The parts of a file's path. -/
def parts (file : String × String) : List String := Language.pathParts file.1

/-- Reads a file. A path that goes through a file or asks for a directory is refused. -/
def read (t : FileTree) : FileReader := fun path =>
  let wanted := Language.pathParts path
  let asDirectory := (path.splitOn "/").getLast?.any fun s => s == "" || s == "."
  if path = "" then .error .missing
  else
    match t.files.find? fun f => parts f == wanted with
    | some f => if asDirectory then .error .notDirectory else .ok f.2
    | none =>
      if wanted.all (· == "..") || t.files.any fun f => wanted.isPrefixOf (parts f) then
        .error .isDirectory
      else if t.files.any fun f => (parts f).isPrefixOf wanted then .error .notDirectory
      else .error .missing

end FileTree

end LiveHighlight
