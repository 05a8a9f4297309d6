import Fabula.Text.Blank

/-!
# The configuration of a project

A configuration says where a project keeps its data files. The data folder is
relative to the project's root, all else to the data folder, because that is
what the import lines are relative to. A field that is left out, or blank, has
its default.
-/

namespace Fabula

/-- **Where a project keeps its data files.** -/
structure Config where
  /-- The data folder. -/
  dataDir : Text := "src/data".toList
  /-- The register. -/
  registerFile : Text := "register.ts".toList
  /-- The world state. -/
  worldStateFile : Text := "TWorldState.ts".toList
  /-- The folder of the characters. -/
  charactersDir : Text := "characters".toList
  /-- The folder of the side characters. -/
  sideCharactersDir : Text := "sideCharacters".toList
  /-- The folder of the locations. -/
  locationsDir : Text := "locations".toList
  /-- The folder of the events. -/
  eventsDir : Text := "events".toList
  /-- The races file. -/
  racesFile : Text := "races/races.ts".toList
  /-- Whether reports show the differences of modified files. -/
  showDiff : Bool := true
deriving DecidableEq, Repr

namespace Config

/-- A value, or the default where it is blank. -/
def orDefault (value default : Text) : Text :=
  if value.isBlankText then default else value

/-- **The configuration with its blank fields filled.** -/
def filled (c : Config) : Config :=
  let d : Config := {}
  { dataDir := orDefault c.dataDir d.dataDir
    registerFile := orDefault c.registerFile d.registerFile
    worldStateFile := orDefault c.worldStateFile d.worldStateFile
    charactersDir := orDefault c.charactersDir d.charactersDir
    sideCharactersDir := orDefault c.sideCharactersDir d.sideCharactersDir
    locationsDir := orDefault c.locationsDir d.locationsDir
    eventsDir := orDefault c.eventsDir d.eventsDir
    racesFile := orDefault c.racesFile d.racesFile
    showDiff := c.showDiff }

end Config

end Fabula
