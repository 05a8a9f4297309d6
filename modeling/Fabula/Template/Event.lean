import Fabula.Text.Case

/-!
# The files of a new event

An event has two files: the event itself, and its *passage map*, which holds
the union of the ids of its passages, empty at first, and the record that
leads from each of these ids to its passage.
-/

namespace Fabula

/-- **What an event file is written from.** -/
structure EventArgs where
  /-- The id of the event. -/
  id : Text
  /-- Its title. -/
  title : Text
  /-- Its description. -/
  description : Text := []
  /-- When it starts. -/
  start : Text := "0.0 0:0".toList
  /-- When it ends. -/
  stop : Text := "0.0 0:0".toList
  /-- The id of the location where it takes place. -/
  location : Text := "unknown".toList
deriving DecidableEq, Repr

namespace Template

/-- The file of a new event. -/
def event (args : EventArgs) : Text :=
  "import \x7b Time, TimeRange \x7d from 'time/Time';\n".toList ++
    "import \x7b TEvent \x7d from 'types/TEvent';\n\nexport const ".toList ++ args.id ++
    "Event: TEvent<'".toList ++ args.id ++ "'> = \x7b\n\teventId: '".toList ++ args.id ++
    "',\n\ttitle: _('".toList ++ args.title ++ "'),\n\tdescription: `".toList ++
    args.description ++ "`,\n\ttimeRange: TimeRange.fromString('".toList ++ args.start ++
    "', '".toList ++ args.stop ++ "'),\n\tlocation: '".toList ++ args.location ++
    "',\n\t\n\tchildren: [],\n\t\n\ttriggers: [],\n\t\n\tinit: \x7b\x7d,\n\x7d;\n".toList ++
    "\nexport type T".toList ++ args.id.capitalize ++ "EventData = \x7b\n\t\n\x7d;\n".toList

/-- The name of the union of an event's passage ids. -/
def passageIdType (event : Text) : Text :=
  'T' :: event.capitalize ++ "PassageId".toList

/-- The name of an event's passage record. -/
def passageRecord (event : Text) : Text :=
  event ++ "EventPassages".toList

/-- **An event's passage record as it is declared**, up to the `=`. It is the
name by which the record is located as a container. -/
def passageContainer (event : Text) : Text :=
  passageRecord event ++ ": Record<".toList ++ passageIdType event ++
    ", (s: TWorldState, e: Engine) => TEventPassage<'".toList ++ event ++ "'>>".toList

/-- The passage map of a new event. -/
def passageMap (event : Text) : Text :=
  "import \x7b Engine \x7d from 'code/Engine/ts/Engine';\n".toList ++
    "import \x7b TWorldState \x7d from 'data/TWorldState';\n".toList ++
    "import \x7b TEventPassage \x7d from 'types/TPassage';\n\nexport type ".toList ++
    passageIdType event ++ " = never;\n\nconst ".toList ++ passageContainer event ++
    " = \x7b\n\x7d;\n\nexport default ".toList ++ passageRecord event ++ ";\n".toList

end Template

end Fabula
