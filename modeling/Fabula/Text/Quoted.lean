import Fabula.Text.PrintableTable

/-!
# Quoted texts

Messages that show a text which may hold anything put it in quotes and escape
what could not be read: the quote itself, the backslash, `\0`, `\t`, `\n`,
`\r`, and, as `\u{…}` with the number in hexadecimal, whatever does not print
or would merge with the character before it.
-/

namespace Fabula

namespace Quoted

/-- Whether a character is shown as it is. -/
def isPlain (c : Char) : Bool :=
  let n := c.toNat
  if n < 0x7F then 0x20 ≤ n
  else !inRanges graphemeExtendRanges n && !inRanges unprintableRanges n

/-- **A character between two `quote`s.** -/
def escape (quote c : Char) : Text :=
  if c = '\x00' then "\\0".toList
  else if c = '\t' then "\\t".toList
  else if c = '\r' then "\\r".toList
  else if c = '\n' then "\\n".toList
  else if c = '\\' || c = quote then ['\\', c]
  else if isPlain c then [c]
  else "\\u\x7b".toList ++ Nat.toDigits 16 c.toNat ++ "\x7d".toList

/-- **A text in double quotes.** -/
def text (t : Text) : Text :=
  '"' :: t.flatMap (escape '"') ++ ['"']

/-- **A character in single quotes.** -/
def char (c : Char) : Text :=
  '\'' :: escape '\'' c ++ ['\'']

end Quoted

end Fabula
