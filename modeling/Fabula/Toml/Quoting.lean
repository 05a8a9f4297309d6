import Fabula.Text.Basic

/-!
# Choosing quotes in TOML

A text can be written in up to four ways. It is written in the plainest one
that needs no escape: between double quotes, between single quotes, as a block
of the former, as a block of the latter. Where every way needs one, double
quotes are taken, and a block when the text has lines.
-/

namespace Fabula

namespace Toml

/-- **A way to quote a text.** -/
inductive Quotes where
  | double
  | single
  | doubleBlock
  | singleBlock
deriving DecidableEq, Repr

namespace Quotes

/-- The quote itself. -/
def mark : Quotes → Text
  | double => ['"']
  | single => ['\'']
  | doubleBlock => "\"\"\"".toList
  | singleBlock => "'''".toList

/-- Whether the text may have lines. -/
def isBlock : Quotes → Bool
  | double => false
  | single => false
  | doubleBlock => true
  | singleBlock => true

/-- Whether there are escapes. -/
def hasEscapes : Quotes → Bool
  | double => true
  | single => false
  | doubleBlock => true
  | singleBlock => false

end Quotes

/-- An ASCII control that cannot be written as it is, not even in a block. -/
def isControl (c : Char) : Bool :=
  (c.toNat < 0x20 && c != '\t' && c != '\n') || c.toNat == 0x7F

/-- The length of the longest run of a character. -/
def longestRun (c : Char) (t : Text) : Nat :=
  go 0 0 t
where
  /-- `run` is the length of the run that is being counted. -/
  go (longest run : Nat) : Text → Nat
    | [] => longest
    | d :: rest => if d = c then go (max longest (run + 1)) (run + 1) rest else go longest 0 rest

/-- **How a text is quoted.** -/
def Quotes.of (t : Text) : Quotes :=
  let control := t.any isControl
  let lines := List.contains t '\n'
  let backslash := List.contains t '\\'
  let doubles := longestRun '"' t
  let singles := longestRun '\'' t
  if !control && !backslash && !lines && doubles = 0 then .double
  else if !control && !lines && singles = 0 then .single
  else if !control && !backslash && doubles ≤ 2 then .doubleBlock
  else if !control && singles ≤ 2 then .singleBlock
  else if lines then .doubleBlock
  else .double

/-- The escape of a control character, by its number in four digits. -/
def numericEscape (c : Char) : Text :=
  let digits := (Nat.toDigits 16 c.toNat).map Char.toUpper
  "\\u".toList ++ List.replicate (4 - digits.length) '0' ++ digits

/-- **A text between double quotes.** In a block line ends stand as they are,
and a double quote unless two stand before it. -/
def escapeAll (block : Bool) (run : Nat) : Text → Text
  | [] => []
  | c :: rest =>
    if c = '"' then
      if (if block then 2 else 0) ≤ run then "\\\"".toList ++ escapeAll block 0 rest
      else '"' :: escapeAll block (run + 1) rest
    else
      (match c with
        | '\x08' => "\\b".toList
        | '\t' => "\\t".toList
        | '\n' => if block then ['\n'] else "\\n".toList
        | '\x0c' => "\\f".toList
        | '\r' => "\\r".toList
        | '\\' => "\\\\".toList
        | c => if isControl c then numericEscape c else [c]) ++ escapeAll block 0 rest

/-- **A text in quotes.** A text with lines begins on a line of its own, so
that a line end it begins with is not taken for that of the quotes. -/
def quote (t : Text) : Text :=
  let quotes := Quotes.of t
  quotes.mark ++ (if quotes.isBlock && List.contains t '\n' then ['\n'] else []) ++
    (if quotes.hasEscapes then escapeAll quotes.isBlock 0 t else t) ++ quotes.mark

end Toml

end Fabula
