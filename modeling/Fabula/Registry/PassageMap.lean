import Fabula.Registry.Listing
import Fabula.Template.Event
import Fabula.Union.Declaration

/-!
# Passages in the registry

The register loads the passage map of each event lazily: the container
`passages` has one loader per event. Older registers spread the passage maps
into that container instead, a line `...<event>EventPassages,` each, and such
lines go when the event goes.

A passage map lists its passages three times: as import lines, as the union of
their ids and as the entries of the passage record. Adding and removing a
passage edits the three in this order.
-/

namespace Fabula

/-- The container of the loaders. -/
def loaderContainer : Text :=
  "passages".toList

/-- The entry that loads an event's passage map. -/
def loaderEntry (event module : Text) : Text :=
  event ++ ": () => import('".toList ++ module ++ "')".toList

/-- **Adds the loader of an event's passages to the register.** -/
def addLoader [Engine] (event module source : Text) : Outcome Text :=
  .within (.addingPassages event) <| .ofEdit <|
    insertEntry .property loaderContainer (loaderEntry event module) .comma source

/-- What an older register spreads an event's passages by. -/
def loaderSpread (event : Text) : Text :=
  "...".toList ++ Template.passageRecord event

/-- **Removes the loader of an event's passages from the register**, and the
lines that spread them. A register without the loader, or without the
container, is as good as one from which it was removed. -/
def removeLoader [Engine] (event source : Text) : Outcome Text :=
  let withoutSpread (t : Text) : Text :=
    if t.contains (loaderSpread event) then Text.removeLinesContaining (loaderSpread event) t else t
  match removeEntry .property loaderContainer event source with
  | .ok removed => .ok (withoutSpread removed)
  | .error (.entryNotFound _ _) => .ok (withoutSpread source)
  | .error (.containerNotFound _) => .ok (withoutSpread source)
  | .error e => .within (.removingPassages event) (.ofEdit (.error e))

namespace PassageRef

/-- The line that imports a passage into its passage map. -/
def importLine (p : PassageRef) (module : Text) : Text :=
  Fabula.importLine p.symbol module

/-- The entry of a passage in its passage record. -/
def entry (p : PassageRef) : Text :=
  p.literal ++ ": ".toList ++ p.symbol

/-- **Adds a passage to its passage map.** -/
def addTo [Engine] (p : PassageRef) (module source : Text) : Outcome Text := do
  let listed ← .within (.addingPassageId p) <| .ofEdit <|
    extendUnion (Template.passageIdType p.event) p.literal (p.importLine module ++ source)
  .within (.addingPassage p) <| .ofEdit <|
    insertEntry .binding (Template.passageContainer p.event) p.entry .comma listed

/-- **Removes a passage from its passage map.** -/
def removeFrom [Engine] (p : PassageRef) (module source : Text) : Outcome Text := do
  let unlisted ← .within (.removingPassageId p) <| .ofEdit <|
    shrinkUnion (Template.passageIdType p.event) p.literal
      (withoutImport (p.importLine module) source)
  .within (.removingPassage p) <| .ofEdit <|
    removeEntry .binding (Template.passageContainer p.event) p.literal unlisted

end PassageRef

end Fabula
