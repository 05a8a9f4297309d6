import Fabula.Diff.Render
import Fabula.Fingerprint
import Fabula.Staging.Transaction

/-!
# Reports

A report lists what a scaffold changed, or would change: modified files first,
then created ones, each in the order of their paths, then what was removed, in
the order it was asked for. Files are recognised by their fingerprints, of
which a rendered report shows the first eight digits.
-/

namespace Fabula

/-- **One change.** -/
inductive Change where
  /-- A file with its old and its new text. -/
  | modified (path : Path) (old new : Text)
  /-- A new file with its text. -/
  | created (path : Path) (text : Text)
  /-- A file or folder that is gone. -/
  | deleted (path : Path)
deriving DecidableEq, Repr

namespace Change

/-- What was changed. -/
def path : Change → Path
  | modified p _ _ => p
  | created p _ => p
  | deleted p => p

/-- The kind of change, in a word. -/
def label : Change → Text
  | modified _ _ _ => "modified".toList
  | created _ _ => "created".toList
  | deleted _ => "deleted".toList

/-- The fingerprint of the old text. -/
def oldHash? : Change → Option Text
  | modified _ old _ => some (fingerprint old)
  | created _ _ => none
  | deleted _ => none

/-- The fingerprint of the new text. -/
def newHash? : Change → Option Text
  | modified _ _ new => some (fingerprint new)
  | created _ t => some (fingerprint t)
  | deleted _ => none

/-- The differences of a modified file. -/
def diff? (palette : Palette) : Change → Option Text
  | modified _ old new => some (Diff.render palette old new)
  | created _ _ => none
  | deleted _ => none

/-- The fingerprints as a report shows them. -/
def shownHashes (c : Change) : Text :=
  match c.oldHash?, c.newHash? with
  | some old, some new => " (".toList ++ old.take 8 ++ " -> ".toList ++ new.take 8 ++ [')']
  | none, some new => " (".toList ++ new.take 8 ++ [')']
  | _, none => []

end Change

/-- **What a scaffold changed**, or would change. -/
structure Report where
  /-- The name of the scaffold. -/
  scaffold : Text
  /-- Whether nothing was written. -/
  dryRun : Bool
  /-- The changes. -/
  changes : List Change
deriving DecidableEq, Repr

namespace Transaction

/-- The changes of a transaction. -/
def changes (tx : Transaction) : List Change :=
  tx.modified.map (fun (p, s) => .modified p s.original s.current) ++
    tx.created.map (fun (p, t) => .created p t) ++ tx.removals.map .deleted

/-- The report of a transaction. -/
def report (tx : Transaction) (scaffold : Text) (dryRun : Bool) : Report :=
  ⟨scaffold, dryRun, tx.changes⟩

end Transaction

namespace Report

/-- The lines that show a change. -/
def changeLines (palette : Palette) (root : Path) (showDiff : Bool) (c : Change) :
    List Text :=
  let shown := (c.path.within? root).getD c.path
  let line := "  ".toList ++ c.label ++ ' ' :: shown.text ++ c.shownHashes
  match c.diff? palette with
  | some diff => if showDiff then [line, diff] else [line]
  | none => [line]

/-- **A report as it is shown**, with paths seen from `root`. -/
def render (palette : Palette) (root : Path) (showDiff : Bool) (r : Report) : Text :=
  let verb : Text := if r.dryRun then "Would apply".toList else "Applied".toList
  let title := verb ++ " '".toList ++ r.scaffold ++ "':".toList
  let none : List Text := if r.changes = [] then ["  no changes".toList] else []
  Text.join ['\n']
    (title :: none ++ r.changes.flatMap (changeLines palette root showDiff))

end Report

end Fabula
