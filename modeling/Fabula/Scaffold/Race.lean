import Fabula.Naming.Id
import Fabula.Registry.Races
import Fabula.Staging.Workspace

/-!
# Races

Creating a race adds its entry to the races file, which is begun when it is
missing. Removing it takes the entry out.

The texts of a race go between quotes, so they are checked before anything is
planned, and a race with a text that cannot be shown is refused. A race that is
created where the file is missing is the second one in it, behind the human
race.
-/

namespace Fabula

namespace Scaffold

/-- Creating a race, its id and texts having been checked. -/
def creatingRace [Engine] (id name description : Text) : Scaffold where
  name := "create race ".toList ++ id
  targets l := [l.racesFile]
  plan d tx := do
    let file := tx.layout.racesFile
    let tx ← if tx.pathExists d file then pure tx else tx.create d file Template.races
    tx.update d file (addRace id name description)

/-- **Creates a race.** Without an id it gets the one its name suggests. -/
def createRace [Engine] (name description : Text) (id? : Option Text) : Outcome Scaffold := do
  let id := id?.getD name.idOfName
  checkId "race".toList id
  checkShown "race name".toList name
  checkShown "race description".toList description
  pure (creatingRace id name.trim description)

/-- Removing a race, its id having been checked. -/
def removingRace [Engine] (id : Text) : Scaffold where
  name := "remove race ".toList ++ id
  targets l := [l.racesFile]
  plan d tx := tx.update d tx.layout.racesFile (Fabula.removeRace id)

/-- **Removes a race.** -/
def removeRace [Engine] (id : Text) : Outcome Scaffold := do
  checkId "race".toList id
  pure (removingRace id)

end Scaffold

end Fabula
