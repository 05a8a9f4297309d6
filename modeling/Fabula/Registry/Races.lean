import Fabula.Failure
import Fabula.Patch.Insertion
import Fabula.Patch.Removal
import Fabula.Template.Race

/-!
# The races

Races have no files of their own. Adding one appends its entry to the race
record, removing one takes its entry out.

The record is located by the whole of its declaration, type included, since its
name alone occurs elsewhere in the sources of a project. An entry is removed by
its id, and it is an object, so a removal does not touch the lines of the texts
in it.
-/

namespace Fabula

/-- **Adds a race to the races file.** -/
def addRace [Engine] (id name description source : Text) : Outcome Text :=
  .within (.addingRace id) <| .ofEdit <|
    insertEntry .binding Template.raceContainer (Template.race id name description) .comma source

/-- **Removes a race from the races file.** -/
def removeRace [Engine] (id source : Text) : Outcome Text :=
  .within (.removingRace id) <| .ofEdit <|
    removeEntry .binding Template.raceContainer id source

end Fabula
