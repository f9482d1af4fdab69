import LiveHighlight.CommandLine.Run

/-! The program: files are read before the run, and its report is printed after it. -/

open LiveHighlight

/-- The file of a path, or why it cannot be read. -/
def readPath (path : String) : IO (Except FileProblem String) := do
  try
    return .ok (← IO.FS.readFile path)
  catch e =>
    match e with
    | .noFileOrDirectory .. => return .error .missing
    | .inappropriateType .. => return .error .isDirectory
    | other => return .error (.other (toString other))

/-- The files that some options name. -/
def namedFiles (o : Options) : List String := o.file.toList ++ o.config.toList

def main (arguments : List String) : IO UInt32 := do
  let paths := match Options.read arguments with
    | .ok options => namedFiles options
    | .error _ => []
  let files ← paths.mapM fun path => return (path, ← readPath path)
  let reader : FileReader := fun path => (files.lookup path).getD (.error .missing)
  let report := CommandLine.run .steady reader arguments
  report.out.forM fun line => IO.println line
  report.err.forM fun line => IO.eprintln line
  return UInt32.ofNat report.exitCode
