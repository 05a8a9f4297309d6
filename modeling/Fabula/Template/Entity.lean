import Fabula.Text.Case

/-!
# The files of new entities

Each new character, side character and location gets a file of its own: the
exported entity, with everything unset that a writer fills in later, and the
exported type of its data. The display name is the content of one literal.
-/

namespace Fabula

namespace Template

/-- The file of a new character. -/
def character (id name : Text) : Text :=
  "import \x7b TCharacter \x7d from 'types/TCharacter';\n\nexport const ".toList ++
    id.capitalize ++ ": TCharacter<'".toList ++ id ++ "'> = \x7b\n\tid: '".toList ++ id ++
    "',\n\tname: _('".toList ++ name ++
    "'),\n\tgeneral_description: ``,\n\tstart_passage_Id: undefined,\n\t\n\tinit: \x7b\n".toList ++
    "\t\thealth: 100,\n\t\thunger: 100,\n\t\tstamina: 100,\n\t\tinventory: [],\n".toList ++
    "\t\tlocation: undefined,\n\t\x7d,\n\x7d;\n\nexport type T".toList ++ id.capitalize ++
    "CharacterData = \x7b\n\t\n\x7d;\n".toList

/-- The file of a new side character. -/
def sideCharacter (id name : Text) : Text :=
  "import \x7b TSideCharacter \x7d from 'types/TCharacter';\n\nexport const ".toList ++
    id.capitalize ++ ": TSideCharacter<'".toList ++ id ++ "'> = \x7b\n\tid: '".toList ++ id ++
    "',\n\tname: _('".toList ++ name ++
    "'),\n\tgeneral_description: ``,\n\t\n\tinit: \x7b\n\t\tinventory: [],\n".toList ++
    "\t\tlocation: undefined,\n\t\tis_dead: false,\n\t\x7d,\n\x7d;\n\nexport type T".toList ++
    id.capitalize ++ "SideCharacterData = \x7b\n\t\n\x7d;\n".toList

/-- The file of a new location. -/
def location (id name : Text) : Text :=
  "import \x7b TLocation \x7d from 'types/TLocation';\n\nexport const ".toList ++ id ++
    "Location: TLocation<'".toList ++ id ++ "'> = \x7b\n\tid: '".toList ++ id ++
    "',\n\tname: _('".toList ++ name ++
    "'),\n\tdescription: '',\n\t\n\tlocalCharacters: [\n\t],\n\tinit: \x7b\x7d,\n\x7d;\n".toList ++
    "\nexport type T".toList ++ id.capitalize ++
    "LocationData = \x7b\n\tvoid?: void;\n\x7d;\n".toList

end Template

end Fabula
