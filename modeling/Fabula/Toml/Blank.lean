import Fabula.Text.Basic

/-!
# What stands between the pieces of a TOML document

Blanks are spaces and tabs. A line ends with a line feed, before which a
carriage return may stand, or with the text; it may have a comment, which
holds no control character but tabs. Inside an array lines do not matter, and
everything of this kind can be passed over.
-/

namespace Fabula

namespace Toml

/-- A space or a tab. -/
def isBlank (c : Char) : Bool :=
  c == ' ' || c == '\t'

/-- **A character that may stand in a comment or a quoted text**: a tab, or
one that is no ASCII control. -/
def isPlain (c : Char) : Bool :=
  c == '\t' || (0x20 ≤ c.toNat && c.toNat != 0x7F)

/-- The text without the blanks in front of it. -/
def dropBlanks (t : Text) : Text :=
  t.dropWhile isBlank

/-- Whether a line ends between a character and what follows it, so that the
character is part of the line's end. -/
def isLineEnd (c : Char) (rest : Text) : Bool :=
  c == '\n' || (c == '\r' && rest.head? == some '\n')

/-- **What follows the line**, of which nothing is left but blanks and a
comment. -/
def afterLine? (comment : Bool) : Text → Option Text
  | [] => some []
  | c :: rest =>
    if c = '\n' then some rest
    else if isLineEnd c rest then afterLine? comment rest
    else if comment then if isPlain c then afterLine? true rest else none
    else if isBlank c then afterLine? false rest
    else if c = '#' then afterLine? true rest
    else none

/-- **What follows blanks, line ends and comments.** -/
def dropTrivia (comment : Bool) : Text → Text
  | [] => []
  | c :: rest =>
    if isLineEnd c rest then dropTrivia (comment && c != '\n') rest
    else if comment then if isPlain c then dropTrivia true rest else c :: rest
    else if isBlank c then dropTrivia false rest
    else if c = '#' then dropTrivia true rest
    else c :: rest

end Toml

end Fabula
