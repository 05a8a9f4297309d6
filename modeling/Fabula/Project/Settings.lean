import Fabula.Disk.Operations
import Fabula.Failure
import Fabula.Project.Config
import Fabula.Toml.Document
import Fabula.Toml.Quoting

/-!
# Configuration files

A configuration is kept in a TOML file, one field a line. What a file leaves
out, or leaves blank, has its default; a key that is no field is passed over.
The configuration of a project is looked for in the file that the user names,
then in the project's folder, then in the user's own file, which is written
when it is missing and completed when it is incomplete.

The files of a project are never written by looking for its configuration. Only
the user's own file is, so that a user finds all fields there to be edited. Its
text is compared with what would be written, and it is written only if the two
differ.
-/

namespace Fabula

namespace Config

/-! ## As a text -/

/-- The line of a field that holds a text. -/
def textLine (key : String) (value : Text) : Text :=
  key.toList ++ " = ".toList ++ Toml.quote value ++ ['\n']

/-- **A configuration as it is written.** -/
def render (c : Config) : Text :=
  [textLine "data_dir" c.dataDir,
    textLine "register_file" c.registerFile,
    textLine "world_state_file" c.worldStateFile,
    textLine "characters_dir" c.charactersDir,
    textLine "side_characters_dir" c.sideCharactersDir,
    textLine "locations_dir" c.locationsDir,
    textLine "events_dir" c.eventsDir,
    textLine "races_file" c.racesFile,
    "show_diff = ".toList ++ (if c.showDiff then "true".toList else "false".toList) ++
      ['\n']].flatten

/-- The text behind a key, or a default where the key is missing. -/
def text? (table : Toml.Table) (key : String) (default : Text) : Option Text :=
  match table.get? key.toList with
  | none => some default
  | some (.value (.text t)) => some t
  | some _ => none

/-- The flag behind a key, or a default where the key is missing. -/
def flag? (table : Toml.Table) (key : String) (default : Bool) : Option Bool :=
  match table.get? key.toList with
  | none => some default
  | some (.value (.flag b)) => some b
  | some _ => none

/-- The configuration a table holds; nothing when a field is of the wrong
kind. -/
def ofTable? (table : Toml.Table) : Option Config := do
  let d : Config := {}
  let dataDir ← text? table "data_dir" d.dataDir
  let registerFile ← text? table "register_file" d.registerFile
  let worldStateFile ← text? table "world_state_file" d.worldStateFile
  let charactersDir ← text? table "characters_dir" d.charactersDir
  let sideCharactersDir ← text? table "side_characters_dir" d.sideCharactersDir
  let locationsDir ← text? table "locations_dir" d.locationsDir
  let eventsDir ← text? table "events_dir" d.eventsDir
  let racesFile ← text? table "races_file" d.racesFile
  let showDiff ← flag? table "show_diff" d.showDiff
  pure
    { dataDir, registerFile, worldStateFile, charactersDir, sideCharactersDir, locationsDir,
      eventsDir, racesFile, showDiff }

/-- **The configuration a text holds.** -/
def read? (t : Text) : Option Config := do
  let table ← Toml.read? t
  ofTable? table

/-! ## On disk -/

/-- The name of a project's own configuration file. -/
def projectFile : Text :=
  "worldsmith.toml".toList

/-- The folder of the user's own file, seen from where the user keeps
configurations. -/
def userFolder : Text :=
  "worldsmith".toList

/-- The user's own file, seen from there. -/
def userFile : Text :=
  "worldsmith/config.toml".toList

/-- **Reads a configuration file**: the configuration with its blank fields
filled, and the text of the file. -/
def readFile (d : Disk) (p : Path) : Outcome (Config × Text) := do
  let t ← .within (.readingConfig p) (.ofDisk (d.read p))
  match read? t with
  | some c => pure (c.filled, t)
  | none => .within (.parsingConfig p) (.fail .notAConfiguration)

/-- The result of an operation that may have changed the disk before it
failed. -/
def afterwards {α : Type} (result : Except DiskError Unit × Disk)
    (next : Disk → Outcome α × Disk) : Outcome α × Disk :=
  match result with
  | (.ok (), d) => next d
  | (.error e, d) => (.fail (.disk e), d)

/-- Writes a configuration file. -/
def writeFile (d : Disk) (p : Path) (c : Config) : Outcome Config × Disk :=
  match d.write p c.render with
  | .ok d => (.ok c, d)
  | .error e => (.fail (.disk e), d)

/-- **Loads a configuration file, writing it when it is missing** and
completing it when it is not as it would be written. -/
def loadOrCreate (d : Disk) (p : Path) : Outcome Config × Disk :=
  if d.pathExists p then
    match readFile d p with
    | .error f => (.error f, d)
    | .ok (c, t) => if c.render = t then (.ok c, d) else writeFile d p c
  else
    match p.parent? with
    | none => writeFile d p {}
    | some folder => afterwards (d.makeFolders folder) fun d => writeFile d p {}

/-- **Loads the configuration of a project.** `home` is where the user keeps
configurations. -/
def load (d : Disk) (home : Path) (named : Option Path) (root : Path) : Outcome Config × Disk :=
  let own := root.join projectFile
  match named with
  | some p => ((readFile d p).map (·.1), d)
  | none =>
    if d.isFile own then ((readFile d own).map (·.1), d)
    else afterwards (d.makeFolders (home.join userFolder)) fun d =>
      loadOrCreate d (home.join userFile)

end Config

end Fabula
