import Fabula.Naming.PassageRef

/-!
# The file of a new passage

There are four kinds of passages. The kind is the middle part of the file's
name, and decides what follows the common head of the file. A screen has a
title and a link to another passage of the same event and character; a
transition leads to such a passage, or to itself when none is given.
-/

namespace Fabula

/-- **A kind of passage.** -/
inductive PassageKind where
  | screen
  | linear
  | transition
  | linearDescriber
deriving DecidableEq, Repr

namespace PassageKind

/-- The middle part of the file's name. -/
def tag : PassageKind → Text
  | screen => "screen".toList
  | linear => "linear".toList
  | transition => "transition".toList
  | linearDescriber => "linearDescriber".toList

end PassageKind

namespace Template

/-- What all passage files begin with. -/
def passageHead (p : PassageRef) : Text :=
  "import \x7b DeltaTime \x7d from 'time/Time';\n".toList ++
    "import \x7b TPassage \x7d from 'types/TPassage';\n\nexport const ".toList ++ p.symbol ++
    " = (): TPassage<'".toList ++ p.event ++ "', '".toList ++ p.character ++
    "'> => (\x7b\n\teventId: '".toList ++ p.event ++ "',\n\tcharacterId: '".toList ++
    p.character ++ "',\n\tid: '".toList ++ p.passage ++ "',\n".toList

/-- The id of another passage of the same event and character. -/
def neighbour (p : PassageRef) (passage : Text) : Text :=
  PassageRef.display { p with passage }

/-- What the file of a kind of passage goes on with. -/
def passageBody (kind : PassageKind) (p : PassageRef) (title link : Option Text) : Text :=
  match kind with
  | .screen =>
    "\n\ttype: 'screen',\n\ttitle: _('".toList ++ title.getD [] ++
      "'),\n\timage: '',\n\n\tbody: [\n\t\t\x7b\n\t\t\tcondition: true,\n".toList ++
      "\t\t\ttext: _(''),\n\t\t\tlinks: [\n\t\t\t\t\x7b\n\t\t\t\t\ttext: _(''),\n".toList ++
      "\t\t\t\t\tpassageId: '".toList ++ neighbour p (link.getD []) ++
      "',\n\t\t\t\t\tcost: \x7b\n\t\t\t\t\t\ttime: DeltaTime.fromMin(),\n\t\t\t\t\t\x7d,\n".toList ++
      "\t\t\t\t\tautoPriortiy: 1,\n\t\t\t\t\x7d,\n\t\t\t],\n\t\t\x7d,\n\t],\n".toList
  | .linear | .linearDescriber =>
    "\ttype: 'linear',\n\tdescription: _(''),\n\tnextPassageId: undefined,\n".toList
  | .transition =>
    "\ttype: 'transition',\n\tnextPassageId: '".toList ++
      neighbour p (link.getD p.passage) ++ "',\n".toList

/-- **The file of a new passage.** -/
def passage (kind : PassageKind) (p : PassageRef) (title link : Option Text) : Text :=
  passageHead p ++ passageBody kind p title link ++ "\x7d);\n".toList

end Template

end Fabula
