import Fabula.Text.Case

/-!
# Kinds of entities

Four kinds of entities are listed in the two registry files. A kind fixes the
container that lists its entities and the names under which an entity's own
file exports it.
-/

namespace Fabula

/-- **A kind of entity.** -/
inductive EntityKind where
  | character
  | sideCharacter
  | location
  | event
deriving DecidableEq, Repr

namespace EntityKind

/-- The kind in words. -/
def label : EntityKind → Text
  | character => "character".toList
  | sideCharacter => "side character".toList
  | location => "location".toList
  | event => "event".toList

/-- **The container that lists the entities of a kind**, in both registry
files. -/
def container : EntityKind → Text
  | character => "characters".toList
  | sideCharacter => "sideCharacters".toList
  | location => "locations".toList
  | event => "events".toList

/-- The name under which an entity's file exports the entity. -/
def symbol (kind : EntityKind) (id : Text) : Text :=
  match kind with
  | character => id.capitalize
  | sideCharacter => id.capitalize
  | location => id ++ "Location".toList
  | event => id ++ "Event".toList

/-- The name under which an entity's file exports the type of its data. -/
def dataType (kind : EntityKind) (id : Text) : Text :=
  'T' :: id.capitalize ++
    match kind with
    | character => "CharacterData".toList
    | sideCharacter => "SideCharacterData".toList
    | location => "LocationData".toList
    | event => "EventData".toList

end EntityKind

end Fabula
