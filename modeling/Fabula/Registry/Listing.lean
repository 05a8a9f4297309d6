import Fabula.Failure
import Fabula.Patch.Insertion
import Fabula.Patch.Removal
import Fabula.Text.Line

/-!
# The two registry files

Every entity is listed twice: in the *register*, as a value, and in the
*world state*, as a member of a type. Each listing is one entry in the
container of the entity's kind and one import line on top of the file. Adding
writes the import first and then the entry. Removing takes out the first line
that reads exactly like that import, if there is one, and then the entry,
which has to be there.

Nothing is kept of what has been added. The two files are the only record there
is, and people edit them as well. So a removal has to recognize the import and
the entry by what is written there, and it recognizes what was added by
computing it once more from the kind, the id and the place of the entity's file.
-/

namespace Fabula

/-- **An entity as the registry files refer to it.** -/
structure Entity where
  /-- Its kind. -/
  kind : EntityKind
  /-- Its id. -/
  id : Text
  /-- The import specifier of its file, seen from the registry files. -/
  module : Text
deriving DecidableEq, Repr

/-- An import line. -/
def importLine (symbol module : Text) : Text :=
  "import \x7b ".toList ++ symbol ++ " \x7d from '".toList ++ module ++ "';\n".toList

/-- The source without the first occurrence of an import line; a source
without it stays as it is. -/
def withoutImport (line source : Text) : Text :=
  (Text.removeFirst? line source).getD source

namespace Entity

/-- The line that imports an entity into the register. -/
def registerImport (e : Entity) : Text :=
  importLine (e.kind.symbol e.id) e.module

/-- The line that imports the type of an entity's data into the world
state. -/
def worldStateImport (e : Entity) : Text :=
  importLine (e.kind.dataType e.id) e.module

/-- The entry of an entity in the register. -/
def registerEntry (e : Entity) : Text :=
  e.id ++ ": ".toList ++ e.kind.symbol e.id

/-- The member of an entity in the world state. -/
def worldStateMember (e : Entity) : Text :=
  let ref (type : String) : Text :=
    e.id ++ ": \x7b ref: ".toList ++ type.toList ++ "<'".toList ++ e.id ++ "'> \x7d & ".toList
  let data := e.kind.dataType e.id
  match e.kind with
  | .character =>
    ref "TCharacter" ++ "TCharacterData & Partial<".toList ++ data ++ ['>']
  | .sideCharacter =>
    ref "TSideCharacter" ++ "TSideCharacterData & Partial<".toList ++ data ++ ['>']
  | .location => ref "TLocation" ++ "Partial<".toList ++ data ++ ['>']
  | .event => ref "TEvent" ++ data

/-- **Adds an entity to the register.** -/
def addToRegister [Engine] (e : Entity) (source : Text) : Outcome Text :=
  .within (.addingToRegister e.kind e.id) <| .ofEdit <|
    insertEntry .property e.kind.container e.registerEntry .comma (e.registerImport ++ source)

/-- **Adds an entity to the world state.** -/
def addToWorldState [Engine] (e : Entity) (source : Text) : Outcome Text :=
  .within (.addingToWorldState e.kind e.id) <| .ofEdit <|
    insertEntry .property e.kind.container e.worldStateMember .semicolon
      (e.worldStateImport ++ source)

/-- **Removes an entity from the register.** -/
def removeFromRegister [Engine] (e : Entity) (source : Text) : Outcome Text :=
  .within (.removingFromRegister e.kind e.id) <| .ofEdit <|
    removeEntry .property e.kind.container e.id (withoutImport e.registerImport source)

/-- **Removes an entity from the world state.** -/
def removeFromWorldState [Engine] (e : Entity) (source : Text) : Outcome Text :=
  .within (.removingFromWorldState e.kind e.id) <| .ofEdit <|
    removeEntry .property e.kind.container e.id (withoutImport e.worldStateImport source)

end Entity

end Fabula
