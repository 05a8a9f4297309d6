import Fabula.Disk.Resolve

/-!
# What can be done to a disk

Each operation takes the disk as it is and answers the disk as it then is, or
why nothing was done. Making a folder with the folders above it is the one
operation that can fail half way, so it answers a disk in either case.

An operation is a walk to an address and one change of the map there. Every
change is made of three: an entry is put, a subtree is taken out, or a subtree
is put at another address. Writing a file at once and moving it are renamings,
which replace what is at the target, and a name that is a link is replaced and
not followed.
-/

namespace Fabula

namespace Disk

/-- **The text of a file.** -/
def read (d : Disk) (p : Path) : Except DiskError Text := do
  let a ← d.follow p
  match d.get? a with
  | some (.file (.text t)) => pure t
  | some (.file (.bytes _)) => throw .notText
  | _ => throw .isFolder

/-- **Writes a file**, in place of the file that was there. -/
def writeContent (d : Disk) (p : Path) (content : Content) : Except DiskError Disk := do
  let a ← d.placeOf p
  match d.get? a with
  | some .folder => throw .isFolder
  | some _ => pure (d.put a (.file content))
  | none => pure (d.put a (.file content))

/-- Writes a text. A path that ends with a slash is no place for a file. -/
def write (d : Disk) (p : Path) (t : Text) : Except DiskError Disk :=
  if p.text.getLast? = some '/' then
    match d.follow p, d.follow ⟨p.text.dropLast⟩ with
    | .error .notFolder, _ => .error .notFolder
    | _, _ => .error .isFolder
  else d.writeContent p (.text t)

/-- **Makes a folder** in a folder that exists. -/
def makeFolder (d : Disk) (p : Path) : Except DiskError Disk := do
  let a ← d.entryAddress p
  match d.get? a with
  | some _ => throw .exists
  | none => pure (d.put a .folder)

/-- **Makes a folder and the folders above it**, as far as they are missing. A
folder that exists is as good as one that was made. -/
def makeFolders (d : Disk) (p : Path) : Except DiskError Unit × Disk :=
  go d p.ancestors
where
  /-- The path and those above it. -/
  go (d : Disk) : List Path → Except DiskError Unit × Disk
    | [] => (.error .notFound, d)
    | p :: above =>
      if p.text = [] then (.ok (), d)
      else
        match d.makeFolder p with
        | .ok d => (.ok (), d)
        | .error .notFound =>
          match go d above with
          | (.ok (), d) => make d p
          | failed => failed
        | .error e => if d.isFolder p then (.ok (), d) else (.error e, d)
  /-- The folder, when those above it exist. -/
  make (d : Disk) (p : Path) : Except DiskError Unit × Disk :=
    match d.makeFolder p with
    | .ok d => (.ok (), d)
    | .error e => if d.isFolder p then (.ok (), d) else (.error e, d)

/-- Makes a link. -/
def makeLink (d : Disk) (p target : Path) : Except DiskError Disk := do
  let a ← d.entryAddress p
  match d.get? a with
  | some _ => throw .exists
  | none => pure (d.put a (.link target))

/-- **Removes a file**, or a link. -/
def removeFile (d : Disk) (p : Path) : Except DiskError Disk := do
  let a ← d.entryAddress p
  match d.get? a with
  | none => throw .notFound
  | some .folder => throw .isFolder
  | some _ => pure (d.cutTree a)

/-- **Removes an entry with everything below it.** -/
def removeTree (d : Disk) (p : Path) : Except DiskError Disk := do
  let a ← d.entryAddress p
  match d.get? a with
  | none => throw .notFound
  | some _ => pure (d.cutTree a)

/-- **Moves an entry** to a path where there is nothing, or something that it
may take the place of: a file where a file is, a folder where an empty folder
is. Both paths have to end in a name, which only a folder may have a slash
behind. -/
def rename (d : Disk) (p q : Path) : Except DiskError Disk := do
  let a ← d.entryAddress p
  let b ← d.entryAddress q
  if !(p.endsInName && q.endsInName) then throw .busy
  else
    match d.get? a with
    | none => throw .notFound
    | some .folder =>
      if a = b then pure d
      else
        match d.get? b with
        | none => pure (d.moveTree a b)
        | some .folder =>
          if d.list b = [] then pure ((d.cutTree b).moveTree a b) else throw .notEmpty
        | some _ => throw .notFolder
    | some _ =>
      if p.text.getLast? = some '/' || q.text.getLast? = some '/' then throw .notFolder
      else if d.get? b = some .folder then throw .isFolder
      else if a = b then pure d
      else pure ((d.cutTree b).moveTree a b)

/-- **The entries of a folder**, in the order of their names. -/
def listFolder (d : Disk) (p : Path) : Except DiskError (List (Text × Entry)) := do
  let a ← d.follow p
  match d.get? a with
  | some .folder => pure (d.list a)
  | _ => throw .notFolder

end Disk

end Fabula
