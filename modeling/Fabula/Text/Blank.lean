import Fabula.Text.Basic

/-!
# White space

What counts as white space is the Unicode property `White_Space`: twenty-five
characters, of which six are ASCII. It is the one notion of a blank in this
library: trimming, splitting into words and skipping blanks in a pattern all
mean it. In particular the zero-width space and the ASCII separators
`\x1c`–`\x1f` are not blank.
-/

namespace Fabula

/-- **White space**, the Unicode property of that name. -/
def isBlank (c : Char) : Bool :=
  let n := c.toNat
  (9 ≤ n && n ≤ 13) || n == 0x20 || n == 0x85 || n == 0xA0 || n == 0x1680
    || (0x2000 ≤ n && n ≤ 0x200A) || n == 0x2028 || n == 0x2029 || n == 0x202F
    || n == 0x205F || n == 0x3000

/-- Every ASCII blank of the core library is a blank here. -/
theorem isBlank_of_isWhitespace {c : Char} (h : c.isWhitespace = true) : isBlank c = true := by
  simp only [Char.isWhitespace, Bool.or_eq_true, decide_eq_true_eq] at h
  rcases h with ((h | h) | h) | h <;> subst h <;> decide

namespace Text

/-- The text without the blanks in front of it. -/
def trimLeft (t : Text) : Text :=
  t.dropWhile isBlank

/-- The text without the blanks at its end. -/
def trimRight (t : Text) : Text :=
  (t.reverse.dropWhile isBlank).reverse

/-- The text without the blanks at its two ends. -/
def trim (t : Text) : Text :=
  trimRight (trimLeft t)

/-- Whether the text is nothing but blanks. -/
def isBlankText (t : Text) : Bool :=
  t.all isBlank

/-- **The words**: the maximal runs of characters that are not blank. -/
def words : Text → List Text
  | [] => []
  | c :: cs =>
    if isBlank c then words cs
    else
      match cs with
      | [] => [[c]]
      | d :: _ =>
        if isBlank d then [c] :: words cs
        else
          match words cs with
          | [] => [[c]]
          | word :: rest => (c :: word) :: rest

/-- The text without any of its blanks. -/
def withoutBlanks (t : Text) : Text :=
  t.filter fun c => !isBlank c

/-- **Skips blanks, then reads `p`**, giving up as few blanks as it can: `p`
is tried after the whole run of blanks first, then one blank earlier, and so
on to the start of the run. -/
def skipBlanks? {α : Type} (p : Text → Option α) : Text → Option α
  | [] => p []
  | c :: cs =>
    if isBlank c then
      match skipBlanks? p cs with
      | some a => some a
      | none => p (c :: cs)
    else p (c :: cs)

end Text

end Fabula
