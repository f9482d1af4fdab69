import LiveHighlight.Config.Basic
import LiveHighlight.Config.Input

/-! Reading a configuration document: an object of settings in any order, or an array of them in
their fixed order. Settings left out keep their defaults, unknown keys are skipped with whatever
value they hold, and a known key may stand only once. -/

namespace LiveHighlight

namespace ConfigInput

/-! ### Values nobody reads -/

mutual

/-- A value nobody reads. The count bounds the steps of reading. -/
def skipValue : Nat → ConfigInput → Except ConfigFailure ConfigInput
  | 0, input => input.fail .endInValue
  | count + 1, input =>
    let input := input.skipBlanks
    match input.rest with
    | [] => input.fail .endInValue
    | c :: rest =>
      let after := input.advance c rest
      if c = 'n' then after.word ['u', 'l', 'l']
      else if c = 't' then after.word ['r', 'u', 'e']
      else if c = 'f' then after.word ['a', 'l', 's', 'e']
      else if c = '-' then after.skipNumber
      else if isDigit c then input.skipNumber
      else if c = '"' then after.skipText
      else if c = '[' then skipElements count true after
      else if c = '\x7b' then skipMembers count true after
      else input.failNext .expectedValue

/-- The rest of an array after its bracket (`first`) or after an element. -/
def skipElements : Nat → (first : Bool) → ConfigInput → Except ConfigFailure ConfigInput
  | 0, _, input => input.fail .endInList
  | count + 1, first, input =>
    let input := input.skipBlanks
    match input.rest with
    | [] => input.fail .endInList
    | c :: rest =>
      if c = ']' then .ok (input.advance c rest)
      else if first then do
        let input ← skipValue count input
        skipElements count false input
      else if c = ',' then do
        let input ← skipValue count (input.advance c rest)
        skipElements count false input
      else input.failNext .expectedListEnd

/-- The rest of an object after its brace (`first`) or after a member. -/
def skipMembers : Nat → (first : Bool) → ConfigInput → Except ConfigFailure ConfigInput
  | 0, _, input => input.fail .endInObject
  | count + 1, first, input =>
    let input := input.skipBlanks
    match input.rest with
    | [] => input.fail .endInObject
    | c :: rest =>
      if c = '\x7d' then .ok (input.advance c rest)
      else if first then skipMember count input
      else if c = ',' then skipMember count (input.advance c rest)
      else input.failNext .expectedObjectEnd

/-- A member of an object and the rest of the object after it. -/
def skipMember : Nat → ConfigInput → Except ConfigFailure ConfigInput
  | 0, input => input.fail .endInObject
  | count + 1, input => do
    let input := input.skipBlanks
    match input.rest with
    | [] => input.fail .endInObject
    | c :: rest =>
      if c ≠ '"' then input.failNext .keyNotString
      else
        let input ← (input.advance c rest).skipText
        let input := input.skipBlanks
        match input.rest with
        | [] => input.fail .endInObject
        | c :: rest =>
          if c ≠ ':' then input.failNext .expectedColon
          else
            let input ← skipValue count (input.advance c rest)
            skipMembers count false input

end

/-- A value nobody reads, whatever it holds. -/
def skipAnyValue (input : ConfigInput) : Except ConfigFailure ConfigInput :=
  input.skipValue (4 * input.rest.length + 4)

/-! ### Settings -/

/-- The failure of a value that is not of the expected kind. The value is read as far as it takes
to describe it. -/
def wrongType {α : Type} (input : ConfigInput) (expected : String) : Except ConfigFailure α :=
  match input.rest with
  | [] => input.failNext .expectedValue
  | c :: rest => do
    let after := input.advance c rest
    if c = 'n' then
      let after ← after.word ['u', 'l', 'l']
      after.fail (.wrongType .null expected)
    else if c = 't' then
      let after ← after.word ['r', 'u', 'e']
      after.fail (.wrongType (.boolean true) expected)
    else if c = 'f' then
      let after ← after.word ['a', 'l', 's', 'e']
      after.fail (.wrongType (.boolean false) expected)
    else if c = '-' then
      let (n, after) ← after.number true
      after.fail (.wrongType n.found expected)
    else if isDigit c then
      let (n, after) ← input.number false
      after.fail (.wrongType n.found expected)
    else if c = '"' then
      let (s, after) ← after.text
      after.fail (.wrongType (.text s) expected)
    else if c = '[' then input.fail (.wrongType .sequence expected)
    else if c = '\x7b' then input.fail (.wrongType .map expected)
    else input.failNext .expectedValue

/-- A whole number below a bound. -/
def unsigned (input : ConfigInput) (bound : Nat) (expected : String) :
    Except ConfigFailure (Nat × ConfigInput) :=
  let input := input.skipBlanks
  match input.rest with
  | [] => input.fail .endInValue
  | c :: rest =>
    if c = '-' ∨ isDigit c then do
      let (n, after) ← if c = '-' then (input.advance c rest).number true else input.number false
      match n with
      | .whole n =>
        if n < bound then return (n, after)
        else after.fail (.wrongValue (.integer n) expected)
      | .negative n => after.fail (.wrongValue (.integer n) expected)
      | .fraction x => after.fail (.wrongType (.number x) expected)
    else input.wrongType expected

/-- A truth value. -/
def boolean (input : ConfigInput) : Except ConfigFailure (Bool × ConfigInput) :=
  let input := input.skipBlanks
  match input.rest with
  | [] => input.fail .endInValue
  | c :: rest => do
    let after := input.advance c rest
    if c = 't' then return (true, ← after.word ['r', 'u', 'e'])
    else if c = 'f' then return (false, ← after.word ['a', 'l', 's', 'e'])
    else input.wrongType "a boolean"

/-- The value of a setting, put into a configuration. -/
def settingValue (config : Config) (setting : Setting) (input : ConfigInput) :
    Except ConfigFailure (Config × ConfigInput) := do
  match setting with
  | .parseTimeout =>
    let (n, input) ← input.unsigned (Nat.pow 2 64) "u64"
    return ({ config with parseTimeoutMicros := .ofNat n }, input)
  | .queryBudget =>
    let (n, input) ← input.unsigned (Nat.pow 2 64) "u64"
    return ({ config with queryBudgetMicros := .ofNat n }, input)
  | .matchLimit =>
    let (n, input) ← input.unsigned (Nat.pow 2 32) "u32"
    return ({ config with queryMatchLimit := .ofNat n }, input)
  | .maxExtension =>
    let (n, input) ← input.unsigned (Nat.pow 2 64) "usize"
    return ({ config with maxExtensionBytes := .ofNat n }, input)
  | .background =>
    let (b, input) ← input.boolean
    return ({ config with backgroundQueries := b }, input)

/-- The colon after a key. -/
def colon (input : ConfigInput) : Except ConfigFailure ConfigInput :=
  let input := input.skipBlanks
  match input.rest with
  | [] => input.fail .endInObject
  | c :: rest => if c = ':' then .ok (input.advance c rest) else input.failNext .expectedColon

/-- The place of a repeated setting: past its key, the blanks after it and a closing brace. -/
def pastRepeated (input : ConfigInput) : ConfigInput :=
  let input := input.skipBlanks
  match input.rest with
  | c :: rest => if c = '\x7d' then input.advance c rest else input
  | [] => input

/-- One member of the document: a setting not among those `seen`, or an unknown key. -/
def member (config : Config) (seen : List Setting) (input : ConfigInput) :
    Except ConfigFailure (Config × List Setting × ConfigInput) := do
  let (key, input) ← input.text
  match Setting.ofKey? key with
  | some setting =>
    if setting ∈ seen then input.pastRepeated.fail (.duplicateSetting key)
    else
      let (config, input) ← settingValue config setting (← input.colon)
      return (config, setting :: seen, input)
  | none => return (config, seen, ← (← input.colon).skipAnyValue)

/-- The members of the document after its brace, or after the members already read. The count
bounds the members to read. -/
def members (config : Config) (seen : List Setting) (first : Bool) :
    Nat → ConfigInput → Except ConfigFailure (Config × ConfigInput)
  | 0, input => input.fail .endInObject
  | count + 1, input => do
    let input := input.skipBlanks
    match input.rest with
    | [] => input.fail .endInObject
    | c :: rest =>
      if c = '\x7d' then return (config, input.advance c rest)
      else if first then
        if c ≠ '"' then input.failNext .keyNotString
        else
          let (config, seen, input) ← member config seen (input.advance c rest)
          members config seen false count input
      else if c ≠ ',' then input.failNext .expectedObjectEnd
      else
        let input := (input.advance c rest).skipBlanks
        match input.rest with
        | [] => input.fail .endInValue
        | c :: rest =>
          if c = '\x7d' then input.failNext .trailingComma
          else if c ≠ '"' then input.failNext .keyNotString
          else
            let (config, seen, input) ← member config seen (input.advance c rest)
            members config seen false count input

/-- The end of an array whose settings have all been read. -/
def closeArray (config : Config) (input : ConfigInput) :
    Except ConfigFailure (Config × ConfigInput) :=
  let input := input.skipBlanks
  match input.rest with
  | [] => input.fail .endInList
  | c :: rest =>
    if c = ']' then .ok (config, input.advance c rest)
    else if c = ',' then
      let input := (input.advance c rest).skipBlanks
      input.failNext (if input.nextIs ']' ']' then .trailingComma else .trailingCharacters)
    else input.failNext .trailingCharacters

/-- The settings of an array after its bracket, or after the settings already read. -/
def elements (config : Config) (first : Bool) :
    List Setting → ConfigInput → Except ConfigFailure (Config × ConfigInput)
  | [], input => closeArray config input
  | setting :: settings, input =>
    let input := input.skipBlanks
    match input.rest with
    | [] => input.fail .endInList
    | c :: rest =>
      if c = ']' then .ok (config, input.advance c rest)
      else if first then do
        let (config, input) ← settingValue config setting input
        elements config false settings input
      else if c ≠ ',' then input.failNext .expectedListEnd
      else
        let input := (input.advance c rest).skipBlanks
        match input.rest with
        | [] => input.fail .endInValue
        | c :: _ => do
          if c = ']' then input.failNext .trailingComma
          else
            let (config, input) ← settingValue config setting input
            elements config false settings input

/-- A document up to the end of its object or array. -/
def document (input : ConfigInput) : Except ConfigFailure (Config × ConfigInput) :=
  let input := input.skipBlanks
  match input.rest with
  | [] => input.fail .endInValue
  | c :: rest =>
    let after := input.advance c rest
    if c = '[' then elements {} true Setting.all after
    else if c = '\x7b' then members {} [] true (rest.length + 1) after
    else input.wrongType "struct HighlightConfig"

end ConfigInput

/-- The configuration that a document describes. -/
def Config.read (text : String) : Except ConfigFailure Config := do
  let (config, input) ← (ConfigInput.ofString text).document
  let input := input.skipBlanks
  if input.rest.isEmpty then return config else input.failNext .trailingCharacters

end LiveHighlight
