import Fabula.Text.Case

/-!
# The address of a passage

A passage belongs to an event and a character and has an id of its own, so it
is addressed by three ids, written with hyphens between them. No id contains a
hyphen, which is why the written form can be read back.
-/

namespace Fabula

/-- **The address of a passage.** -/
structure PassageRef where
  /-- The event it belongs to. -/
  event : Text
  /-- The character it belongs to. -/
  character : Text
  /-- Its own id, unique for the event and the character. -/
  passage : Text
deriving DecidableEq, Repr

namespace PassageRef

/-- The written form. -/
def display (p : PassageRef) : Text :=
  p.event ++ '-' :: p.character ++ '-' :: p.passage

/-- The written form as a literal of the event's union of passage ids. -/
def literal (p : PassageRef) : Text :=
  '\'' :: p.display ++ ['\'']

/-- The name under which the passage's file exports it. -/
def symbol (p : PassageRef) : Text :=
  p.character ++ p.passage.capitalize ++ "Passage".toList

end PassageRef

end Fabula
