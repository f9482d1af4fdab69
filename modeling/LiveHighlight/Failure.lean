import LiveHighlight.Config.Failure
import LiveHighlight.Duration

/-! What can go wrong in highlighting, and how it is told. -/

namespace LiveHighlight

/-- The causes of failure. A parse that ran out of its time and a grammar that does not load are
recovered from inside the highlighter; the others reach the host. -/
inductive HighlightFailure
  | unsupportedLanguage (id : String)
  | grammarNotFound (id : String)
  | grammarLoadFailure (language reason : String)
  | parseTimeout (budget : Duration)
  | invalidRange (start stop length : Nat)
  | unknownSession (id : Nat)
  | invalidConfig (failure : ConfigFailure)

def HighlightFailure.message : HighlightFailure → String
  | unsupportedLanguage id => "Unsupported language: " ++ id
  | grammarNotFound id => "Grammar not found: " ++ id
  | grammarLoadFailure language reason =>
    "Failed to load grammar for " ++ language ++ ": " ++ reason
  | parseTimeout budget => "Parse exceeded its time budget of " ++ budget.render
  | invalidRange start stop length =>
    "Range " ++ toString start ++ ".." ++ toString stop ++ " is invalid for a buffer of " ++
      toString length ++ " bytes"
  | unknownSession id => "No buffer attached with id " ++ toString id
  | invalidConfig failure => "Invalid configuration: " ++ failure.message

end LiveHighlight
