import LiveHighlight.Syntax.Grammar

/-! Shapes of tokens that several programming languages have in common. -/

namespace LiveHighlight

namespace CharSet

/-- What the words of most languages begin with. Letters past ASCII count as such. -/
def wordStart : CharSet :=
  ⟨[('a', 'z'), ('A', 'Z'), ('_', '_'), ('\u0080', Char.ofNat 0x10ffff)], false⟩

/-- What the words of most languages go on with. -/
def wordRest : CharSet := { wordStart with ranges := ('0', '9') :: wordStart.ranges }

end CharSet

namespace Lexeme

/-- Decimal digits, which may be grouped, or such digits of another base behind its letter. -/
def wholeNumber : Lexeme :=
  .pattern (.ofString "0[xX][0-9a-fA-F_]+|0[oO][0-7_]+|0[bB][01_]+|[0-9][0-9_]*")

/-- Digits with a point or an exponent. -/
def pointNumber : Lexeme :=
  .pattern (.ofString "[0-9][0-9_]*(\\.[0-9_]+([eE][+-]?[0-9]+)?|[eE][+-]?[0-9]+)")

/-- A backslash and what it escapes. -/
def escape : Lexeme :=
  .pattern (.ofString "\\\\(x[0-9a-fA-F][0-9a-fA-F]|u[0-9a-fA-F]\x7b4\x7d|[^xu\n])")

/-- Characters of a row up to a backslash or a quotation mark. -/
def quotedRun (mark : Char) : Lexeme := .run ⟨[('\\', '\\'), (mark, mark), ('\n', '\n')], true⟩

end Lexeme

namespace Rule

/-- A text between two quotation marks, with escapes in it. -/
def quoted (kind content : String) (mark : Char) : Rule :=
  node kind (seq [literal mark.toString,
    many (joined (either (token content (.quotedRun mark)) (token "escape_sequence" .escape))),
    joined (literal mark.toString)])

end Rule

end LiveHighlight
