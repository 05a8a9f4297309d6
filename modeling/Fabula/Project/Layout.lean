import Fabula.Naming.Entity
import Fabula.Path
import Fabula.Project.Config
import Fabula.Template.Passage

/-!
# The layout of a project

Where each file of a project is. The data folder is below the root, and every
other folder below the data folder; a configured path that is absolute stands
for itself. An event has a folder of its own, in which each character with a
passage has a folder for its passages.
-/

namespace Fabula

/-- **The layout of a project.** -/
structure Layout where
  /-- The folder of the project. -/
  root : Path
  /-- Where it keeps its data files. -/
  config : Config
deriving DecidableEq, Repr

/-- What the name of a character's passage folder ends with. -/
def passageFolderEnding : Text :=
  ".passages".toList

namespace Layout

/-- The data folder. -/
def dataDir (l : Layout) : Path :=
  l.root.join l.config.dataDir

/-- The register. -/
def registerFile (l : Layout) : Path :=
  l.dataDir.join l.config.registerFile

/-- The world state. -/
def worldStateFile (l : Layout) : Path :=
  l.dataDir.join l.config.worldStateFile

/-- The races file. -/
def racesFile (l : Layout) : Path :=
  l.dataDir.join l.config.racesFile

/-- The folder of the characters. -/
def charactersDir (l : Layout) : Path :=
  l.dataDir.join l.config.charactersDir

/-- The folder of the side characters. -/
def sideCharactersDir (l : Layout) : Path :=
  l.dataDir.join l.config.sideCharactersDir

/-- The folder of the locations. -/
def locationsDir (l : Layout) : Path :=
  l.dataDir.join l.config.locationsDir

/-- The folder of the events. -/
def eventsDir (l : Layout) : Path :=
  l.dataDir.join l.config.eventsDir

/-- The file of a character. -/
def characterFile (l : Layout) (id : Text) : Path :=
  l.charactersDir.join (id ++ ".ts".toList)

/-- The file of a side character. -/
def sideCharacterFile (l : Layout) (id : Text) : Path :=
  l.sideCharactersDir.join (id ++ ".ts".toList)

/-- The file of a location. -/
def locationFile (l : Layout) (id : Text) : Path :=
  l.locationsDir.join (id ++ ".location.ts".toList)

/-- The folder of an event. -/
def eventDir (l : Layout) (id : Text) : Path :=
  l.eventsDir.join id

/-- The file of an event. -/
def eventFile (l : Layout) (id : Text) : Path :=
  (l.eventDir id).join (id ++ ".event.ts".toList)

/-- The passage map of an event. -/
def passageMapFile (l : Layout) (id : Text) : Path :=
  (l.eventDir id).join (id ++ ".passages.ts".toList)

/-- The file of an entity. -/
def entityFile (l : Layout) (kind : EntityKind) (id : Text) : Path :=
  match kind with
  | .character => l.characterFile id
  | .sideCharacter => l.sideCharacterFile id
  | .location => l.locationFile id
  | .event => l.eventFile id

/-- The folder of a character's passages in an event. -/
def passageFolder (l : Layout) (event character : Text) : Path :=
  (l.eventDir event).join (character ++ passageFolderEnding)

/-- The file of a passage. -/
def passageFile (l : Layout) (p : PassageRef) (kind : PassageKind) : Path :=
  (l.passageFolder p.event p.character).join (p.passage ++ '.' :: kind.tag ++ ".ts".toList)

end Layout

/-- **The import specifier of a file seen from a folder**: the components of
the path from there, behind `./` and without the ending `.ts`. A file that
does not lie below the folder keeps all its components. -/
def importSpecifier (folder file : Path) : Text :=
  let seen := (file.within? folder).getD file
  let specifier := Text.join ['/'] (seen.components.map Component.text)
  "./".toList ++ (Text.before? ".ts".toList specifier).getD specifier

namespace Layout

/-- The import specifier of a file seen from the registry files. -/
def dataModule (l : Layout) (file : Path) : Text :=
  importSpecifier l.dataDir file

/-- The import specifier of a file seen from an event's passage map. -/
def passageModule (l : Layout) (event : Text) (file : Path) : Text :=
  importSpecifier (l.eventDir event) file

end Layout

end Fabula
