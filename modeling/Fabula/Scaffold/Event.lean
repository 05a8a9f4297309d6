import Fabula.Naming.Id
import Fabula.Registry.PassageMap
import Fabula.Scaffold.Entity
import Fabula.Template.Event

/-!
# Events

Creating an event makes its folder with the event's file and its passage map,
lists the event in both registry files and adds the loader of its passages to
the register. Removing it removes the folder with all that is in it. An event
that has passage folders is removed only when that is forced.
-/

namespace Fabula

namespace Scaffold

/-- What creating and removing an event touches. -/
def eventTargets (id : Text) (l : Layout) : List Path :=
  [l.registerFile, l.worldStateFile, l.eventDir id]

/-- Creating an event, its arguments having been checked. -/
def creatingEvent [Engine] (args : EventArgs) : Scaffold where
  name := "create event ".toList ++ args.id
  targets := eventTargets args.id
  plan d tx := do
    let l := tx.layout
    if tx.pathExists d (l.eventDir args.id) then .fail (.eventExists args.id)
    else
      let map := l.passageMapFile args.id
      let tx ← tx.create d (l.eventFile args.id) (Template.event args)
      let tx ← tx.create d map (Template.passageMap args.id)
      let e := entityOf l .event args.id
      let tx ← tx.update d l.registerFile fun source => do
        addLoader args.id (l.dataModule map) (← e.addToRegister source)
      tx.update d l.worldStateFile e.addToWorldState

/-- **Creates an event.** -/
def createEvent [Engine] (args : EventArgs) : Outcome Scaffold := do
  checkId "event".toList args.id
  checkId "location".toList args.location
  checkShown "event title".toList args.title
  checkShown "event description".toList args.description
  checkShown "start time".toList args.start
  checkShown "end time".toList args.stop
  pure (creatingEvent args)

/-- **The passage folders in the folder of an event**, in order. -/
def passageFolders (d : Disk) (eventDir : Path) : Outcome (List Text) := do
  let entries ← .within (.listing eventDir) (.ofDisk (d.listFolder eventDir))
  pure ((entries.filter fun x => x.2 == .folder && x.1.endsWith passageFolderEnding).map (·.1))

/-- Removing an event, its id having been checked. -/
def removingEvent [Engine] (id : Text) (force : Bool) : Scaffold where
  name := "remove event ".toList ++ id
  targets := eventTargets id
  plan d tx := do
    let l := tx.layout
    let folder := l.eventDir id
    if !d.isFolder folder then .fail (.noEvent id)
    else
      let passages ← passageFolders d folder
      if !passages.isEmpty && !force then .fail (.eventHasPassages id passages)
      else
        let tx ← tx.deleteFolder d folder
        let e := entityOf l .event id
        let tx ← tx.update d l.registerFile fun source => do
          removeLoader id (← e.removeFromRegister source)
        tx.update d l.worldStateFile e.removeFromWorldState

/-- **Removes an event.** -/
def removeEvent [Engine] (id : Text) (force : Bool) : Outcome Scaffold := do
  checkId "event".toList id
  pure (removingEvent id force)

end Scaffold

end Fabula
