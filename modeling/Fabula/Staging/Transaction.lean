import Fabula.Project.Confinement
import Fabula.Project.Layout
import Fabula.Staging.PathMap

/-!
# Transactions

A transaction collects what a scaffold is going to do, and writes nothing.
Files are read once and edited in the transaction from then on; new files and
removals are noted. Every path has to lie at a declared target or below one,
and inside the data folder.

Reading sees what was edited and created; `pathExists` sees what was created
and removed as well. The other questions a scaffold asks it asks of the disk,
which a transaction does not change.

A transaction is a value, so planning is a function from it to a new one, and a
plan that fails leaves nothing to be cleaned up. Which answer a call gives
depends on the disk and on the transaction. A path is looked up by its
components, in any spelling, but what is removed is told by the paths as they
were given: a path is removed when it lies at or below one of these.
-/

namespace Fabula

/-- **A file that was read**: its text on disk and its text as edited. -/
structure Staged where
  /-- The text that was read. -/
  original : Text
  /-- The text as it is going to be. -/
  current : Text
deriving DecidableEq, Repr

namespace Staged

/-- Whether there is anything to write. -/
def isModified (s : Staged) : Bool :=
  s.current != s.original

end Staged

/-- **The staged changes of a scaffold.** -/
structure Transaction where
  /-- The layout of the project. -/
  layout : Layout
  /-- What the scaffold declared it may touch. -/
  targets : List Path
  /-- The files that were read. -/
  staged : PathMap Staged := []
  /-- The files that are going to be created. -/
  created : PathMap Text := []
  /-- What is going to be removed, in the order it was asked for. -/
  removals : List Path := []
deriving DecidableEq, Repr

namespace Transaction

/-- Passes a path that may be touched, or refuses it. -/
def check (tx : Transaction) (d : Disk) (p : Path) : Outcome Unit :=
  if tx.targets.any p.isWithin then d.ensureWithin p tx.layout.dataDir
  else .fail (.undeclared p)

/-- Whether a path lies at a removed one or below it. -/
def isRemoved (tx : Transaction) (p : Path) : Bool :=
  tx.removals.any p.isWithin

/-- **Whether there is something at a path once the changes are made.** -/
def pathExists (tx : Transaction) (d : Disk) (p : Path) : Bool :=
  tx.created.holds p || (d.pathExists p && !tx.isRemoved p)

/-- **The text of a file as it is going to be.** A file is read from the disk
the first time. -/
def read (tx : Transaction) (d : Disk) (p : Path) : Outcome (Text × Transaction) := do
  tx.check d p
  match tx.created.find? p with
  | some t => pure (t, tx)
  | none =>
    match tx.staged.find? p with
    | some s => pure (s.current, tx)
    | none =>
      let t ← .within (.reading p) (.ofDisk (d.read p))
      pure (t, { tx with staged := tx.staged.insert p ⟨t, t⟩ })

/-- **Edits a file.** -/
def update (tx : Transaction) (d : Disk) (p : Path) (patch : Text → Outcome Text) :
    Outcome Transaction := do
  let (t, tx) ← tx.read d p
  let updated ← .within (.updating p) (patch t)
  if tx.created.holds p then pure { tx with created := tx.created.insert p updated }
  else
    match tx.staged.find? p with
    | some s => pure { tx with staged := tx.staged.insert p { s with current := updated } }
    | none => pure tx

/-- **Creates a file** where there is going to be nothing. -/
def create (tx : Transaction) (d : Disk) (p : Path) (t : Text) : Outcome Transaction := do
  tx.check d p
  if tx.pathExists d p then .fail (.alreadyExists p)
  else pure { tx with created := tx.created.insert p t }

/-- **Removes a file.** -/
def deleteFile (tx : Transaction) (d : Disk) (p : Path) : Outcome Transaction := do
  tx.check d p
  if d.isFile p then pure { tx with removals := tx.removals ++ [p] } else .fail (.notAFile p)

/-- **Removes a folder** with all that is in it. -/
def deleteFolder (tx : Transaction) (d : Disk) (p : Path) : Outcome Transaction := do
  tx.check d p
  if d.isFolder p then pure { tx with removals := tx.removals ++ [p] }
  else .fail (.notAFolder p)

/-- Every path of the transaction. -/
def paths (tx : Transaction) : List Path :=
  tx.staged.map Prod.fst ++ tx.created.map Prod.fst ++ tx.removals

/-- What the names made up for a commit have to exceed in length: the
transaction's paths and the names on the disk. -/
def reserved (tx : Transaction) (d : Disk) : Nat :=
  (tx.paths.map fun p => p.text.length).foldr max d.longestName

/-- The files whose text is going to change. -/
def modified (tx : Transaction) : PathMap Staged :=
  tx.staged.filter fun x => x.2.isModified

end Transaction

end Fabula
