import LiveHighlight.Duration

/-! Limits and switches of highlighting, with the defaults that stand for every setting a
configuration document leaves out, and their compact document. -/

namespace LiveHighlight

/-- The limits that highlighting works under. -/
structure Config where
  /-- How long a single parse may take before it is paused; zero sets no limit. -/
  parseTimeoutMicros : UInt64 := 500000
  /-- How long one highlight query may take. -/
  queryBudgetMicros : UInt64 := 50000
  /-- How many matches of a query may be in progress at once. -/
  queryMatchLimit : UInt32 := 16384
  /-- How far past its end a query may follow a capture that runs on. -/
  maxExtensionBytes : UInt64 := 65536
  /-- Whether queries run on a background worker. -/
  backgroundQueries : Bool := false
deriving DecidableEq, Repr, Inhabited

/-- The settings of a configuration document. -/
inductive Setting
  | parseTimeout
  | queryBudget
  | matchLimit
  | maxExtension
  | background
deriving DecidableEq, Repr, Inhabited

namespace Setting

/-- All settings, in the order in which a document lists them. -/
def all : List Setting := [parseTimeout, queryBudget, matchLimit, maxExtension, background]

/-- The key of a setting. -/
def key : Setting → String
  | parseTimeout => "parse_timeout_micros"
  | queryBudget => "query_budget_micros"
  | matchLimit => "query_match_limit"
  | maxExtension => "max_extension_bytes"
  | background => "background_queries"

/-- The setting with a key. -/
def ofKey? (key : String) : Option Setting := all.find? (·.key == key)

end Setting

namespace Config

def parseTimeout (c : Config) : Duration := .ofMicros c.parseTimeoutMicros.toNat

def queryBudget (c : Config) : Duration := .ofMicros c.queryBudgetMicros.toNat

/-- The text of a setting's value. -/
def valueText (c : Config) : Setting → String
  | .parseTimeout => toString c.parseTimeoutMicros.toNat
  | .queryBudget => toString c.queryBudgetMicros.toNat
  | .matchLimit => toString c.queryMatchLimit.toNat
  | .maxExtension => toString c.maxExtensionBytes.toNat
  | .background => if c.backgroundQueries then "true" else "false"

/-- One setting as a member of a document. -/
def member (c : Config) (s : Setting) : String := "\"" ++ s.key ++ "\":" ++ c.valueText s

/-- The configuration as a document without blanks. -/
def render (c : Config) : String :=
  "\x7b" ++ ",".intercalate (Setting.all.map c.member) ++ "\x7d"

end Config

end LiveHighlight
