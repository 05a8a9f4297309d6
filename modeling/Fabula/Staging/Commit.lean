import Fabula.Staging.Report
import Fabula.Staging.Trash

/-!
# Committing a transaction

A commit first reads every file it is going to modify once more and stops when
one has changed since. It then moves aside what is to be removed, writes the
modified files and creates the new ones, with the folders they need. If one of
these steps fails, the files that were written get their old text back, what
was created is removed, and what was moved aside is moved back.

The order is chosen for this. Whatever can be refused is tried before anything
is lost, and what cannot be undone, to drop the hidden folders, comes last, when
it is settled that the commit succeeds. What was done is kept on two lists, of
written files with their old texts and of created paths, so undoing needs
nothing but these.

Between the first reading and the end of the commit the disk is not looked at
again for what others may have changed on it. A file is protected from such
changes when it was read, by comparing its text, and a path at which a file is
created was asked for when the creation was staged.
-/

namespace Fabula

/-- **How far a commit has come**, as far as it may have to be undone. -/
structure Progress where
  /-- The disk as it is. -/
  disk : Disk
  /-- The files that were written, with the texts they had. -/
  written : List (Path × Text) := []
  /-- The files and the topmost folders that were created. -/
  created : List Path := []
deriving DecidableEq, Repr

namespace Progress

/-- Writes modified files. -/
def writeAll (s : Progress) : PathMap Staged → Outcome Unit × Progress
  | [] => (.ok (), s)
  | (p, file) :: rest =>
    match s.disk.writeAtomic p file.current with
    | .ok disk =>
      writeAll { s with disk, written := s.written ++ [(p, file.original)] } rest
    | .error f => (.error f, s)

/-- The topmost folder that has to be made for a folder to exist. -/
def firstMissing? (d : Disk) (folder : Path) : Option Path :=
  (folder.ancestors.takeWhile fun p => p.text != [] && !d.pathExists p).getLast?

/-- Makes the folder of a new file. -/
def makeParent (s : Progress) (p : Path) : Outcome Unit × Progress :=
  match p.parent? with
  | none => (.ok (), s)
  | some folder =>
    let missing := firstMissing? s.disk folder
    match s.disk.makeFolders folder with
    | (.ok (), disk) => (.ok (), { s with disk, created := s.created ++ missing.toList })
    | (.error e, disk) => (.within (.creating folder) (.fail (.disk e)), { s with disk })

/-- Creates new files. -/
def createAll (s : Progress) : PathMap Text → Outcome Unit × Progress
  | [] => (.ok (), s)
  | (p, t) :: rest =>
    match s.makeParent p with
    | (.error f, s) => (.error f, s)
    | (.ok (), s) =>
      match s.disk.writeAtomic p t with
      | .ok disk => createAll { s with disk, created := s.created ++ [p] } rest
      | .error f => (.error f, s)

/-- Gives a written file its old text back. -/
def rewrite (d : Disk) (file : Path × Text) : Disk :=
  match d.writeAtomic file.1 file.2 with
  | .ok d => d
  | .error _ => d

/-- Removes something that was created. -/
def uncreate (d : Disk) (p : Path) : Disk :=
  match if d.isFolder p then d.removeTree p else d.removeFile p with
  | .ok d => d
  | .error _ => d

/-- **Undoes what was written and created.** -/
def undo (s : Progress) : Disk :=
  s.created.reverse.foldl uncreate (s.written.foldl rewrite s.disk)

end Progress

namespace Transaction

/-- Stops when a file that is going to be modified is not as it was read. -/
def checkUnchanged (d : Disk) (scaffold : Text) : PathMap Staged → Outcome Unit
  | [] => .ok ()
  | (p, file) :: rest =>
    match Outcome.within (.rereading p) (.ofDisk (d.read p)) with
    | .error f => .error f
    | .ok t =>
      if fingerprint t = fingerprint file.original then checkUnchanged d scaffold rest
      else .fail (.changedOnDisk p scaffold)

/-- Writes and creates, or undoes what was done of it. -/
def writeOut (tx : Transaction) (d : Disk) : Outcome Unit × Disk :=
  match Progress.writeAll { disk := d } tx.modified with
  | (.error f, s) => (.error f, s.undo)
  | (.ok (), s) =>
    match s.createAll tx.created with
    | (.error f, s) => (.error f, s.undo)
    | (.ok (), s) => (.ok (), s.disk)

/-- **Commits a transaction.** -/
def commit (tx : Transaction) (scaffold : Text) (d : Disk) : Outcome Report × Disk :=
  match checkUnchanged d scaffold tx.modified with
  | .error f => (.error f, d)
  | .ok () =>
    match d.moveAllAside (tx.reserved d) tx.removals with
    | (.error f, d) => (.within (.movingAside scaffold) (.error f), d)
    | (.ok moved, d) =>
      match tx.writeOut d with
      | (.error f, d) => (.within (.applying scaffold) (.error f), d.restore moved)
      | (.ok (), d) => (.ok (tx.report scaffold false), d.purge moved)

end Transaction

end Fabula
