import Fabula.Text.Basic

/-!
# The races file

All races are entries of one record in one file, which begins with the human
race alone.
-/

namespace Fabula

namespace Template

/-- **The race record as it is declared**, up to the `=`. It is the name by
which the record is located as a container. -/
def raceContainer : Text :=
  "races: Record<TRace['name'], TRace>".toList

/-- The entry of a race, without its indentation. -/
def race (id name description : Text) : Text :=
  id ++ ": \x7b\n\tname: _('".toList ++ name ++ "'),\n\tdescription: _('".toList ++
    description ++ "'),\n\x7d".toList

/-- The races file as it is begun. -/
def races : Text :=
  "import \x7b TRace \x7d from 'types/TCharacter';\n\nexport const ".toList ++ raceContainer ++
    " = \x7b\n\thuman: \x7b\n\t\tname: _('Human'),\n\t\tdescription: _(''),\n\t\x7d,\n\x7d;\n".toList

end Template

end Fabula
