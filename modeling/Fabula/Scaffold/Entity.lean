import Fabula.Naming.Id
import Fabula.Registry.Listing
import Fabula.Staging.Workspace
import Fabula.Template.Entity

/-!
# Characters, side characters and locations

Creating one of them makes its file and lists it in both registry files;
removing it undoes the three. Events have files of their own kind and are
refused here.
-/

namespace Fabula

namespace Template

/-- The file of a new entity that is no event. -/
def entity (kind : EntityKind) (id name : Text) : Text :=
  match kind with
  | .character => character id name
  | .sideCharacter => sideCharacter id name
  | .location => location id name
  | .event => location id name

end Template

namespace Scaffold

/-- What creating and removing an entity touches. -/
def entityTargets (kind : EntityKind) (id : Text) (l : Layout) : List Path :=
  [l.registerFile, l.worldStateFile, l.entityFile kind id]

/-- The entity as the registry files of a layout refer to it. -/
def entityOf (l : Layout) (kind : EntityKind) (id : Text) : Entity :=
  ⟨kind, id, l.dataModule (l.entityFile kind id)⟩

/-- Creating an entity, its id and name having been checked. -/
def creatingEntity [Engine] (kind : EntityKind) (id name : Text) : Scaffold where
  name := "create ".toList ++ kind.label ++ ' ' :: id
  targets := entityTargets kind id
  plan d tx := do
    let l := tx.layout
    let file := l.entityFile kind id
    if tx.pathExists d file then .fail (.entityExists kind id)
    else
      let tx ← tx.create d file (Template.entity kind id name)
      let e := entityOf l kind id
      let tx ← tx.update d l.registerFile e.addToRegister
      tx.update d l.worldStateFile e.addToWorldState

/-- **Creates a character, a side character or a location.** Without an id it
gets the one its name suggests. -/
def createEntity [Engine] (kind : EntityKind) (name : Text) (id? : Option Text) :
    Outcome Scaffold :=
  if kind = .event then .fail .eventsCreatedElsewhere
  else do
    let id := id?.getD name.idOfName
    checkId kind.label id
    checkShown (kind.label ++ " name".toList) name
    pure (creatingEntity kind id name.trim)

/-- Removing an entity, its id having been checked. -/
def removingEntity [Engine] (kind : EntityKind) (id : Text) : Scaffold where
  name := "remove ".toList ++ kind.label ++ ' ' :: id
  targets := entityTargets kind id
  plan d tx := do
    let l := tx.layout
    let file := l.entityFile kind id
    if !tx.pathExists d file then .fail (.noEntity kind id)
    else
      let tx ← tx.deleteFile d file
      let e := entityOf l kind id
      let tx ← tx.update d l.registerFile e.removeFromRegister
      tx.update d l.worldStateFile e.removeFromWorldState

/-- **Removes a character, a side character or a location.** -/
def removeEntity [Engine] (kind : EntityKind) (id : Text) : Outcome Scaffold :=
  if kind = .event then .fail .eventsRemovedElsewhere
  else do
    checkId kind.label id
    pure (removingEntity kind id)

end Scaffold

end Fabula
