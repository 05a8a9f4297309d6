import Fabula.Naming.Id
import Fabula.Registry.PassageMap
import Fabula.Staging.Workspace
import Fabula.Template.Passage

/-!
# Passages

Creating a passage makes its file in the folder of its character, and lists it
in the passage map of its event. The event and the character have to exist,
and no file of the passage, whatever its kind. Removing it removes the file,
or the whole folder when the passage is the last one in it.
-/

namespace Fabula

namespace Scaffold

/-- The entries of a folder; a path that leads to no folder has none. -/
def entriesOf (d : Disk) (folder : Path) : Outcome (List (Text × Entry)) :=
  if d.isFolder folder then .within (.listing folder) (.ofDisk (d.listFolder folder)) else .ok []

/-- **The file of a passage**, whatever its kind. -/
def findPassageFile (d : Disk) (folder : Path) (passage : Text) : Outcome (Option Path) := do
  let entries ← entriesOf d folder
  let found := entries.find? fun (name, _) =>
    name.startsWith (passage ++ ['.']) && name.endsWith ".ts".toList
  pure (found.map fun (name, _) => folder.join name)

/-- The passage whose file has this name. -/
def passageOfName? (name : Text) : Option Text :=
  if List.contains name '.' && Text.endsWith name ".ts".toList then some (name.takeWhile (· != '.'))
  else none

/-- **The passages that have a file in a folder**, in order. -/
def existingPassages (d : Disk) (folder : Path) : Outcome (List Text) := do
  let entries ← entriesOf d folder
  let ids := entries.filterMap fun (name, _) => passageOfName? name
  pure (ids.mergeSort fun x y => !decide (y < x))

/-- **Creates a passage.** `link` is the id of another passage of the same
event and character. -/
def createPassage [Engine] (p : PassageRef) (kind : PassageKind) (title link : Option Text) :
    Scaffold where
  name := "create passage ".toList ++ p.display
  targets l := [l.passageMapFile p.event, l.passageFolder p.event p.character,
    l.characterFile p.character]
  plan d tx := do
    let l := tx.layout
    title.forM (checkShown "passage title".toList)
    link.forM (checkId "linked passage".toList)
    if !d.isFolder (l.eventDir p.event) then .fail (.noEvent p.event)
    else if !d.pathExists (l.characterFile p.character) then
      .fail (.noEntity .character p.character)
    else
      match ← findPassageFile d (l.passageFolder p.event p.character) p.passage with
      | some taken => .fail (.passageExists p taken)
      | none =>
        let file := l.passageFile p kind
        let tx ← tx.create d file (Template.passage kind p title link)
        tx.update d (l.passageMapFile p.event) (p.addTo (l.passageModule p.event file))

/-- **Removes a passage.** -/
def removePassage [Engine] (p : PassageRef) : Scaffold where
  name := "remove passage ".toList ++ p.display
  targets l := [l.passageMapFile p.event, l.passageFolder p.event p.character]
  plan d tx := do
    let l := tx.layout
    let folder := l.passageFolder p.event p.character
    match ← findPassageFile d folder p.passage with
    | none => .fail (.noPassage p)
    | some file =>
      let passages ← existingPassages d folder
      let tx ← if passages.length = 1 then tx.deleteFolder d folder else tx.deleteFile d file
      tx.update d (l.passageMapFile p.event) (p.removeFrom (l.passageModule p.event file))

end Scaffold

end Fabula
