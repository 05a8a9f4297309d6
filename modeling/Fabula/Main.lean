import Fabula.Command.Run

/-!
# The program

The outermost layer. It looks at as much of the machine's disk as a command
can see, runs the command on that, carries out what has changed, and prints.
What a command can see is the configuration files and, once these say where it
is, the data folder, each with whatever links lead there.
-/

namespace Fabula

namespace Program

/-- What has been looked at. -/
structure Seen where
  disk : Disk
  /-- The folders whose entries are all there. -/
  opened : List Address := []

/-- Where an address is on the machine. -/
def location (a : Address) :=
  System.mkFilePath [String.ofList (Disk.pathOf a).text]

/-- The address of an absolute path without links. -/
def addressOf (path : String) : Address :=
  (Text.split '/' path.toList).filter (· ≠ [])

/-- The entry at an address, if there is one. A link leads to where it ends,
or nowhere. -/
def entryAt? (a : Address) : IO (Option Entry) := do
  try
    match (← (location a).symlinkMetadata).type with
    | .dir => return some .folder
    | .symlink =>
      try return some (.link ⟨(← IO.FS.realPath (location a)).toString.toList⟩)
      catch _ => return some (.link ⟨[]⟩)
    | .file =>
      let bytes ← IO.FS.readBinFile (location a)
      match String.fromUTF8? bytes with
      | some t => return some (.file (.text t.toList))
      | none => return some (.file (.bytes bytes.data.toList))
    | .other => return none
  catch _ => return none

/-- Looks at the entries on the way to an address, and where links lead. -/
partial def lookAt (a : Address) : StateT Seen IO Unit := do
  for n in [1 : a.length + 1] do
    let way := a.take n
    if ((← get).disk.get? way).isNone then
      if let some entry ← entryAt? way then
        modify fun seen => { seen with disk := seen.disk.put way entry }
        if let .link target := entry then lookAt (addressOf (String.ofList target.text))

/-- Looks at all that is at an address and below it. -/
partial def lookBelow (a : Address) : StateT Seen IO Unit := do
  lookAt a
  match (← get).disk.get? a with
  | some (.link target) => lookBelow (addressOf (String.ofList target.text))
  | some .folder =>
    unless (← get).opened.contains a do
      modify fun seen => { seen with opened := a :: seen.opened }
      for entry in ← (location a).readDir do
        lookBelow (a ++ [entry.fileName.toList])
  | _ => return

/-- Looks at what a path leads to, and below it when `whole` says so. -/
def lookAlong (whole : Bool) (p : Path) : StateT Seen IO Unit := do
  let absolute := (← get).disk.absolute p
  let address ←
    try pure (addressOf (← IO.FS.realPath (String.ofList absolute.text)).toString)
    catch _ => pure (addressOf (String.ofList absolute.text))
  lookAt (addressOf (String.ofList absolute.text))
  if whole then lookBelow address else lookAt address

/-- Looks at all that a request can see. -/
def lookFor (r : Command.Request) (home : Path) : StateT Seen IO Unit := do
  r.config?.forM (lookAlong false)
  lookAlong false (r.project.join Config.projectFile)
  lookAlong false (home.join Config.userFile)
  match Config.load (← get).disk home r.config? r.project with
  | (.ok config, _) => lookAlong true (Layout.mk r.project config).dataDir
  | (.error _, _) => return

/-- Carries out the changes from one disk to another: first what is gone, from
the bottom up, then what is new, from the top down. -/
def carryOut (old new : Disk) : IO Unit := do
  let gone := old.entries.filter fun x => (new.get? x.1).isNone
  for (a, entry) in gone.mergeSort fun x y => y.1.length ≤ x.1.length do
    if entry = .folder then IO.FS.removeDir (location a) else IO.FS.removeFile (location a)
  let changed := new.entries.filter fun x => old.get? x.1 != some x.2
  for (a, entry) in changed.mergeSort fun x y => x.1.length ≤ y.1.length do
    match entry with
    | .folder => IO.FS.createDir (location a)
    | .file (.text t) => IO.FS.writeFile (location a) (String.ofList t)
    | .file (.bytes b) => IO.FS.writeBinFile (location a) ⟨b.toArray⟩
    | .link _ => pure ()

/-- Where the user keeps configurations. -/
def configHome : IO Path := do
  let usual := (← IO.getEnv "HOME").getD "" ++ "/.config"
  match ← IO.getEnv "XDG_CONFIG_HOME" with
  | some folder => return ⟨(if folder.startsWith "/" then folder else usual).toList⟩
  | none => return ⟨usual.toList⟩

/-- Whether there are colors: they are forced, or a terminal takes them. -/
def palette : IO Palette := do
  let forced := (← IO.getEnv "CLICOLOR_FORCE").getD "0" != "0"
  let terminal ← (← IO.getStdout).isTty
  let refused := (← IO.getEnv "NO_COLOR").isSome || (← IO.getEnv "CLICOLOR").getD "1" == "0"
  return if forced || (terminal && !refused) then .colored else .plain

/-- So many throws. -/
def throwMany : Nat → StdGen → Dice
  | 0, _ => []
  | n + 1, g =>
    let (v, g) := randNat g 0 (2 ^ 32 - 1)
    UInt32.ofNat v :: throwMany n g

end Program

end Fabula

open Fabula Fabula.Program in
open scoped Fabula.Engine.Tireless in
/-- Runs the command line it is given. -/
def main (arguments : List String) : IO UInt32 := do
  let arguments := arguments.map String.toList
  let home ← configHome
  let chance ← IO.rand 0 (UInt32.size - 1)
  let throws (seed? : Option Nat) : Dice := throwMany 10000 (mkStdGen (seed?.getD chance))
  let cwd := addressOf (← IO.FS.realPath (← IO.currentDir)).toString
  let look : StateT Seen IO Unit := do
    lookAt cwd
    if let some r := Command.Request.read? arguments then lookFor r home
  let ((), seen) ← look.run { disk := { cwd, entries := [] } }
  let (printed, after) := Command.execute ⟨home, ← palette, throws⟩ arguments seen.disk
  carryOut seen.disk after
  (← IO.getStdout).putStr (String.ofList printed.out)
  (← IO.getStderr).putStr (String.ofList printed.err)
  return UInt32.ofNat printed.status
