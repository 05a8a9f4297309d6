import Fabula.Diff.Alignment
import Fabula.Diff.Sliding

/-!
# Changes and hunks

A script is read as a list of *parts*: unchanged stretches and, between them,
changes that replace some old lines by some new ones. For showing, the
unchanged stretches are cut down to a few lines of context. Where a stretch is
longer than the context of both its neighbours, the changes fall into separate
*hunks*.

Here lines are numbered. A part says at which line of each side it begins, and
every number is computed from the parts before it.
-/

namespace Fabula

/-- **A part of a comparison**, at its place on both sides. -/
inductive Part where
  /-- Lines that both sides have. -/
  | same (old new : Nat) (lines : List Text)
  /-- Old lines and the new lines that replace them. -/
  | change (old new : Nat) (removed added : List Text)
deriving DecidableEq, Repr

/-- A list of changes with the context around them. -/
abbrev Hunk := List Part

namespace Script

/-- **The parts of a script.** `old` and `new` number the next lines of both
sides, `removed` and `added` are the change that is being collected. -/
def parts (old new : Nat) (removed added : List Text) : Script → List Part
  | [] => change old new removed added []
  | .keep lines :: s =>
    change old new removed added
      (keep (old + removed.length) (new + added.length) lines
        (parts (old + removed.length + lines.length) (new + added.length + lines.length) [] [] s))
  | .drop lines :: s => parts old new (removed ++ lines) added s
  | .add lines :: s => parts old new removed (added ++ lines) s
where
  /-- A change in front of parts, unless it is none. -/
  change (old new : Nat) (removed added : List Text) (ps : List Part) : List Part :=
    if removed = [] ∧ added = [] then ps else .change old new removed added :: ps
  /-- A stretch in front of parts, joined with a stretch that begins them. -/
  keep (old new : Nat) (lines : List Text) : List Part → List Part
    | .same _ _ more :: ps => .same old new (lines ++ more) :: ps
    | ps => .same old new lines :: ps

end Script

namespace Hunk

/-- The last `n` lines of a stretch that begins a comparison. -/
def trimFirst (n : Nat) : List Part → List Part
  | .same old new lines :: ps =>
    let k := lines.length - n
    .same (old + k) (new + k) (lines.drop k) :: ps
  | ps => ps

/-- The first `n` lines of a stretch that ends a comparison. -/
def trimLast (n : Nat) : List Part → List Part
  | [] => []
  | [.same old new lines] => [.same old new (lines.take n)]
  | p :: ps => p :: trimLast n ps

/-- **The hunks of a comparison**: cut in each stretch of more than `2 * n`
lines, of which `n` stay on both sides of the cut. -/
def split (n : Nat) : List Part → List Hunk
  | [] => [[]]
  | .same old new lines :: ps =>
    if 2 * n < lines.length then
      let k := lines.length - n
      [.same old new (lines.take n)] :: extend (.same (old + k) (new + k) (lines.drop k)) (split n ps)
    else extend (.same old new lines) (split n ps)
  | p :: ps => extend p (split n ps)
where
  /-- A part in front of the first hunk. -/
  extend (p : Part) : List Hunk → List Hunk
    | [] => [[p]]
    | hunk :: hunks => (p :: hunk) :: hunks

/-- Whether a hunk shows no change: it has no part, or is one stretch. -/
def isIdle : Hunk → Bool
  | [] => true
  | [.same _ _ _] => true
  | _ => false

/-- The hunks without a last one that shows no change. -/
def dropIdleEnd : List Hunk → List Hunk
  | [] => []
  | [hunk] => if isIdle hunk then [] else [hunk]
  | hunk :: hunks => hunk :: dropIdleEnd hunks

/-- **The hunks of two texts' lines**, with `n` lines of context. -/
def of (n : Nat) (old new : List Text) : List Hunk :=
  let parts := Script.parts 0 0 [] [] (Script.slide [] (align old new))
  dropIdleEnd (split n (trimLast n (trimFirst n parts)))

end Hunk

end Fabula
