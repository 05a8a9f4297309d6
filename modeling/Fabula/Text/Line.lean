import Fabula.Text.Basic

/-!
# Lines

Two readings of a text as lines are needed. The pieces between line feeds,
`Text.split '\n'`, are what an edit of the text works on, since joining them
gives the text back. The *lines* of a text, as a reader numbers them, end with
a line feed or with a carriage return and a line feed; a last line without one
counts, an empty last one does not.
-/

namespace Fabula

namespace Text

/-- The piece of a line feed's left side that is its line: a carriage return
directly before the line feed belongs to the line's end. -/
def withoutReturn (piece : Text) : Text :=
  (before? ['\r'] piece).getD piece

/-- **The lines of a text.** -/
def lines : Text → List Text
  | t => go (split '\n' t)
where
  /-- Every piece but the last was ended by a line feed. -/
  go : List Text → List Text
    | [] => []
    | [last] => if last = [] then [] else [last]
    | piece :: pieces => withoutReturn piece :: go pieces

/-- The text without the lines that contain `needle`. -/
def removeLinesContaining (needle t : Text) : Text :=
  join ['\n'] ((split '\n' t).filter fun line => !contains line needle)

/-- The text without the first occurrence of `needle`; nothing when it does
not occur, or is empty. -/
def removeFirst? (needle t : Text) : Option Text :=
  if needle = [] then none
  else (cut? needle t).map fun (front, rest) => front ++ rest

/-- **The rest of the line is skipped** with the line feed that ends it; a
text without a line feed has no such rest. -/
def afterLine? : Text → Option Text
  | [] => none
  | c :: cs => if c = '\n' then some cs else afterLine? cs

end Text

end Fabula
