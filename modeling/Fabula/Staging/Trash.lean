import Fabula.Disk.Operations
import Fabula.Failure

/-!
# Moving aside, and writing at once

Nothing that a commit removes is gone before all of it is written. Each file
or folder is first moved into a hidden folder of its own beside it, from where
it can be moved back; the hidden folders are dropped in the end. A path below
another removed one goes with it.

A file is written to a temporary file in the same folder, which then takes the
file's place, so a reader sees the old text or the new one.

The names of hidden folders and temporary files are made up. They are longer
than any path of the transaction and any name on the disk, so nothing is there
under them, and nothing else is written there. In place of the random letters of
a name there is a run of letters of that length.
-/

namespace Fabula

/-- **Something that was moved aside.** -/
structure Moved where
  /-- Where it was. -/
  original : Path
  /-- Where it is. -/
  aside : Path
  /-- The hidden folder it is in. -/
  holder : Path
deriving DecidableEq, Repr

namespace Disk

/-- The folder in which temporary entries for a path are made, and its
address. -/
def workFolder (d : Disk) (folder : Path) : Except DiskError (Path × Address) := do
  let work := d.absolute folder
  let a ← d.follow work
  if d.isFolderAt a then pure (work, a) else throw .notFolder

/-- **Writes a file at once.** When that fails nothing has changed. -/
def writeAtomic (d : Disk) (p : Path) (t : Text) : Outcome Disk :=
  match p.parent? with
  | none => .fail (.noFolder p)
  | some folder =>
    match d.workFolder folder with
    | .error e =>
      -- the message leaves out what makes the temporary name unique
      .within (.makingTemporary folder)
        (.fail (.diskAt e ((d.absolute folder).join ".tmp".toList)))
    | .ok (work, a) =>
      let name := d.freshName p.text.length ".tmp".toList
      match (d.put (a ++ [name]) (.file (.text t))).rename (work.join name) p with
      | .ok d => .ok d
      | .error e => .within (.writing p) (.fail (.persist e))

/-- The disk without the hidden folder of something that was moved aside. -/
def dropHolder (d : Disk) (m : Moved) : Disk :=
  match d.removeTree m.holder with
  | .ok d => d
  | .error _ => d

/-- **Moves an entry aside.** When that fails nothing has changed. `reserved` is
how long a path may be that must not lead into a hidden folder. -/
def moveAside (d : Disk) (reserved : Nat) (p : Path) : Outcome (Moved × Disk) :=
  match p.parent?, p.fileName? with
  | some folder, some name =>
    .within (.deleting p) <|
      match d.workFolder folder with
      | .error e =>
        .fail (.diskAt e ((d.absolute folder).join ".worldsmith-removed-".toList))
      | .ok (work, a) =>
        let holderName := d.freshName reserved ".worldsmith-removed-".toList
        let holder := work.join holderName
        let aside := holder.join name
        match (d.put (a ++ [holderName]) .folder).rename p aside with
        | .ok d => .ok (⟨p, aside, holder⟩, d)
        | .error e => .fail (.disk e)
  | _, _ => .fail (.unmovable p)

/-- Moves something back. What cannot be moved back is lost with its hidden
folder. -/
def putBack (d : Disk) (m : Moved) : Disk :=
  match d.rename m.aside m.original with
  | .ok d => d.dropHolder m
  | .error _ => d.dropHolder m

/-- **Moves everything back**, the last moved first. -/
def restore (d : Disk) (moved : List Moved) : Disk :=
  moved.reverse.foldl putBack d

/-- **Drops everything that was moved aside.** -/
def purge (d : Disk) (moved : List Moved) : Disk :=
  moved.foldl dropHolder d

/-- Whether a removed path goes with another one. -/
def isCovered (removals : List Path) (p : Path) : Bool :=
  removals.any fun other => !other.same p && p.isWithin other

/-- **Moves all removed paths aside.** When one cannot be moved, those moved
before it are moved back. -/
def moveAllAside (d : Disk) (reserved : Nat) (removals : List Path) :
    Outcome (List Moved) × Disk :=
  go d [] (removals.filter fun p => !isCovered removals p)
where
  /-- The paths that are left, after some were moved. -/
  go (d : Disk) (moved : List Moved) : List Path → Outcome (List Moved) × Disk
    | [] => (.ok moved, d)
    | p :: ps =>
      match d.moveAside reserved p with
      | .ok (m, d) => go d (moved ++ [m]) ps
      | .error f => (.error f, d.restore moved)

end Disk

end Fabula
