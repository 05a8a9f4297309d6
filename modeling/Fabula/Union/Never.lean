import Fabula.Patch.Engine

/-!
# The placeholder `never`

A union type without alternatives is written `never`. Before an alternative is
appended, every standalone `never` is dropped, together with the `|` that
joins it to a neighbour. It stands alone when neither neighbour is a letter,
a digit, `_`, `$`, `-` or a quote, so `never` inside a longer name is safe, and
so is a literal that begins or ends with it.

There are two passes. The first drops each placeholder that has a bar beside it,
together with that bar, the one before it rather than the one behind. What then
still stands alone is dropped by the second pass, with the blanks around it left
as they are, and the ends of the text are trimmed. The passes read characters
and know no literals, so a placeholder between blanks inside a literal is
dropped as well.
-/

namespace Fabula

namespace Union

/-- A character that may not touch a standalone `never`: one that continues a
name, a quote, or `-`. -/
def touchesNever (c : Char) : Bool :=
  isNameChar c || c == '\'' || c == '"' || c == '\x60' || c == '-'

/-- The word. -/
def neverWord : Text :=
  "never".toList

/-- **A standalone `never` at the head of a text**, seen from the character
before: what follows it. -/
def never? (previous : Option Char) (t : Text) : Option Text :=
  if previous.any touchesNever then none
  else
    match Text.after? neverWord t with
    | some rest => if rest.head?.any touchesNever then none else some rest
    | none => none

/-- What follows a `|` and the blanks on both sides of it. -/
def pipe? (t : Text) : Option Text :=
  match t.dropWhile isBlank with
  | '|' :: rest => some (rest.dropWhile isBlank)
  | _ => none

/-- **A standalone `never` with the `|` before it**, or else with the `|`
behind it. -/
def joinedNever? (previous : Option Char) (t : Text) : Option Text :=
  -- the character before the word is a blank or the bar, and touches nothing
  match (pipe? t).bind (never? none) with
  | some rest => some rest
  | none => (never? previous t).bind pipe?

/-- Whether there is a standalone `never` in the text. -/
def hasNever (t : Text) : Bool :=
  (Text.search? never? none t).isSome

/-- What is left of a text when the `never`s with a `|` are dropped, and then
the others. -/
def stripped (t : Text) : Text :=
  Text.trim (Text.replaceAll never? [] none (Text.replaceAll joinedNever? [] none t))

/-- **The text without its standalone `never`s**, trimmed. -/
def withoutNever [Engine] (t : Text) : Except PatchError Text := do
  let withoutJoined ← Engine.replaceAll .joinedNever joinedNever? [] t
  let withoutAny ← Engine.replaceAll .never never? [] withoutJoined
  pure withoutAny.trim

end Union

end Fabula
