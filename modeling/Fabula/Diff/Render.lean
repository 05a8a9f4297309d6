import Fabula.Diff.Hunk
import Fabula.Palette
import Fabula.Text.Blank
import Fabula.Text.Line

/-!
# Showing the differences of two texts

One line per line of a hunk: a mark, the line's number, and the line. Removed
lines have `-` and their old number, added lines `+` and their new one, lines
of context their new number. A single line that was replaced by one that
differs in blanks only counts as context. Between two hunks stands `...`.
-/

namespace Fabula

namespace Diff

/-- A shown line: a mark, the number, the line. Numbers are shown from one
on. -/
def labelled (mark : Char) (n : Nat) (line : Text) : Text :=
  mark :: ' ' :: Text.padLeft 4 (Text.ofNat (n + 1)) ++ ": ".toList ++ line

/-- Lines shown under consecutive numbers. -/
def numbered (mark : Char) (n : Nat) (lines : List Text) : List Text :=
  lines.mapIdx fun i line => labelled mark (n + i) line

/-- **The lines that show a part.** -/
def shown (palette : Palette) : Part → List Text
  | .same _ new lines => numbered ' ' new lines
  | .change old new removed added =>
    match removed, added with
    | [before], [after] =>
      if before.withoutBlanks = after.withoutBlanks then numbered ' ' new [after]
      else changed old new [before] [after]
    | _, _ => changed old new removed added
where
  /-- Removed lines, then added ones. -/
  changed (old new : Nat) (removed added : List Text) : List Text :=
    (numbered '-' old removed).map (palette.paint [.red]) ++
      (numbered '+' new added).map (palette.paint [.green])

/-- **The differences of two texts**, as they are shown. -/
def render (palette : Palette) (old new : Text) : Text :=
  if old = new then "No changes detected.".toList
  else
    let hunks := (Hunk.of 2 old.lines new.lines).map fun hunk => hunk.flatMap (shown palette)
    Text.join ['\n'] (hunks.intersperse ["...".toList]).flatten

end Diff

end Fabula
