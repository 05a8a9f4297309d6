import Fabula.Failure
import Fabula.Text.Blank

/-!
# Ids and shown texts

What a user gives is either an *id*, which becomes part of names in the
written files, or a *text to be shown*, which becomes the content of a string
literal there. An id is an ASCII letter followed by ASCII letters, digits and
`_`. A shown text is anything without braces, the quotes `'` and backtick,
backslashes and line breaks, so that it neither ends its literal nor changes
the braces an edit counts.
-/

namespace Fabula

namespace Text

/-- A character that an id may go on with. -/
def isIdChar (c : Char) : Bool :=
  c.isAlphanum || c == '_'

/-- **Whether a text is an id.** -/
def isId : Text → Bool
  | [] => false
  | c :: cs => c.isAlpha && cs.all isIdChar

/-- A character that a shown text may not contain. -/
def isForbidden (c : Char) : Bool :=
  c == '{' || c == '}' || c == '\'' || c == '\x60' || c == '\\' || c == '\n' || c == '\r'

/-- Whether a text can be shown. -/
def isShown (t : Text) : Bool :=
  !t.any isForbidden

/-- **The id of a display name**: its words in lower case, with `_` between
them. It need not be a valid id. -/
def idOfName (name : Text) : Text :=
  join ['_'] (words (toLower (trim name)))

end Text

/-- Passes an id, or refuses it. -/
def checkId (what id : Text) : Outcome Unit :=
  if id.isId then .ok () else .fail (.invalidId what id)

/-- Passes a text to be shown, or refuses it for its first forbidden
character. -/
def checkShown (what text : Text) : Outcome Unit :=
  match text.find? Text.isForbidden with
  | some c => .fail (.invalidText what text c)
  | none => .ok ()

namespace PassageRef

/-- **A passage of three ids**, each checked. -/
def make (event character passage : Text) : Outcome PassageRef := do
  checkId "event".toList event
  checkId "character".toList character
  checkId "passage".toList passage
  pure ⟨event, character, passage⟩

/-- **A passage from its written form**: three ids with hyphens between
them. -/
def parse (written : Text) : Outcome PassageRef :=
  match Text.split '-' written with
  | [event, character, passage] => make event character passage
  | _ => .fail (.invalidPassageId written)

end PassageRef

end Fabula
