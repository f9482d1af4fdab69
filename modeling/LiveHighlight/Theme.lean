import LiveHighlight.Capture.Fallback

/-! Themes give captures a colour and font traits. A capture without a rule of its own takes the
rule of its nearest fallback that has one, for the colour and for the font separately. -/

namespace LiveHighlight

/-- A colour by its red, green, blue and opacity in thousandths. -/
structure Colour where
  red : Int
  green : Int
  blue : Int
  opacity : Int
deriving DecidableEq, Repr, Inhabited

namespace Colour

/-- A channel as a byte: cut to the range from none to all, and rounded down. -/
def channelByte (thousandths : Int) : Nat := min 255 (thousandths.toNat * 255 / 1000)

/-- A byte by its two hexadecimal digits. -/
def hexByte (n : Nat) : List Char := [Nat.digitChar (n / 16), Nat.digitChar (n % 16)]

/-- The colour without its opacity, as six hexadecimal digits behind a hash. -/
def hex (c : Colour) : String :=
  String.ofList ('#' :: [c.red, c.green, c.blue].flatMap (hexByte ∘ channelByte))

end Colour

/-- Font traits. -/
structure Font where
  bold : Bool := false
  italic : Bool := false
  underline : Bool := false
deriving DecidableEq, Repr, Inhabited

/-- What the host applies to a stretch of text. -/
structure Attributes where
  foreground : Colour
  font : Font
deriving DecidableEq, Repr, Inhabited

/-- A theme. Of two rules for one capture the first in the list counts. -/
structure Theme where
  name : String
  background : Colour
  foreground : Colour
  colours : List (Capture × Colour) := []
  fonts : List (Capture × Font) := []
deriving DecidableEq, Repr, Inhabited

namespace Theme

/-- A theme without rules. -/
def plain (name : String) : Theme :=
  { name, background := ⟨102, 102, 122, 1000⟩, foreground := ⟨902, 902, 902, 1000⟩ }

/-- The theme with a colour rule, which takes the place of an earlier one for the capture. -/
def setColour (t : Theme) (c : Capture) (colour : Colour) : Theme :=
  { t with colours := (c, colour) :: t.colours }

/-- The theme with a font rule, which takes the place of an earlier one for the capture. -/
def setFont (t : Theme) (c : Capture) (font : Font) : Theme :=
  { t with fonts := (c, font) :: t.fonts }

/-- The colour of a capture, or of text that no capture covers. -/
def colourFor (t : Theme) (c : Option Capture) : Colour :=
  (c.bind fun c => c.fallbackChain.findSome? fun c => t.colours.lookup c).getD t.foreground

/-- The font of a capture, or of text that no capture covers. -/
def fontFor (t : Theme) (c : Option Capture) : Font :=
  (c.bind fun c => c.fallbackChain.findSome? fun c => t.fonts.lookup c).getD {}

def attributesFor (t : Theme) (c : Option Capture) : Attributes :=
  ⟨t.colourFor c, t.fontFor c⟩

/-- A dark theme. -/
def dark : Theme where
  name := "Dark"
  background := ⟨102, 102, 122, 1000⟩
  foreground := ⟨682, 710, 749, 1000⟩
  colours := [
    (.keyword, ⟨769, 471, 839, 1000⟩),
    (.string, ⟨596, 765, 475, 1000⟩),
    (.escape, ⟨337, 788, 784, 1000⟩),
    (.number, ⟨824, 608, 467, 1000⟩),
    (.constant, ⟨824, 608, 467, 1000⟩),
    (.comment, ⟨455, 506, 557, 1000⟩),
    (.function, ⟨380, 686, 937, 1000⟩),
    (.functionMacro, ⟨337, 788, 784, 1000⟩),
    (.type, ⟨890, 780, 478, 1000⟩),
    (.namespaceName, ⟨890, 780, 478, 1000⟩),
    (.attributeName, ⟨890, 780, 478, 1000⟩),
    (.variableBuiltin, ⟨878, 439, 439, 1000⟩),
    (.variableParameter, ⟨878, 439, 439, 1000⟩),
    (.property, ⟨878, 439, 439, 1000⟩),
    (.tag, ⟨878, 439, 439, 1000⟩),
    (.operator, ⟨337, 788, 784, 1000⟩),
    (.punctuation, ⟨600, 627, 667, 1000⟩),
    (.title, ⟨769, 471, 839, 1000⟩),
    (.uri, ⟨380, 686, 937, 1000⟩),
    (.error, ⟨878, 298, 298, 1000⟩)]
  fonts := [
    (.comment, { italic := true }),
    (.variableParameter, { italic := true }),
    (.title, { bold := true }),
    (.bold, { bold := true }),
    (.italic, { italic := true }),
    (.uri, { underline := true }),
    (.error, { underline := true })]

/-- A light theme. -/
def light : Theme where
  name := "Light"
  background := ⟨984, 984, 984, 1000⟩
  foreground := ⟨231, 259, 322, 1000⟩
  colours := [
    (.keyword, ⟨627, 314, 706, 1000⟩),
    (.string, ⟨306, 604, 24, 1000⟩),
    (.number, ⟨114, 404, 804, 1000⟩),
    (.constant, ⟨114, 404, 804, 1000⟩),
    (.comment, ⟨502, 549, 596, 1000⟩),
    (.function, ⟨71, 345, 667, 1000⟩),
    (.type, ⟨16, 490, 490, 1000⟩),
    (.variableBuiltin, ⟨753, 204, 204, 1000⟩),
    (.property, ⟨753, 204, 204, 1000⟩)]
  fonts := [(.comment, { italic := true })]

instance : Inhabited Theme := ⟨dark⟩

end Theme

end LiveHighlight
