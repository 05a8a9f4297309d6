import Fabula.Patch.Error
import Fabula.Text.Scan

/-!
# The engine that searches

Edits look for what they edit by regular expressions with look-behinds, and
the engine that searches for one takes back its choices until it finds a
match. It has a budget for that. A search that uses up the budget is given up,
though the text may well hold what is looked for: a container behind half a
million blanks is not found, and it is not reported as missing either. Nor is
there an answer when a name is so long that no pattern can be made of it. Both
are one and the same error, and both are called giving up here.

What a search finds, when it comes to its end, is a matter of the pattern and
the text alone, and the definitions of this library say it. Whether it comes
to its end is up to the engine, and an `Engine` says nothing but that: of a
search it tells whether it is given up, and in what words. Every search of an
edit asks it (`Engine.complete`), in the order in which the edit makes its
searches. The engine that this library runs on is `Engine.tireless`, which
has no budget.
-/

namespace Fabula

/-- How a container's name is tied to its braces. -/
inductive ContainerKind where
  /-- `name: { … }`, a property or an annotated member. -/
  | property
  /-- `name = { … }`, a binding. -/
  | binding
deriving DecidableEq, Repr

/-- **What an engine is asked to search for.** -/
inductive Pattern where
  /-- The header of a container. -/
  | header (kind : ContainerKind) (name : Text)
  /-- A header with the body and the closing brace behind it. -/
  | container (kind : ContainerKind) (name : Text)
  /-- An entry that is an object, with the rest of its last line. -/
  | objectEntry (key : Text)
  /-- An entry and the rest of its line. -/
  | lineEntry (key : Text)
  /-- The declaration of a union type. -/
  | declaration (typeName : Text)
  /-- A standalone `never` with a `|` beside it. -/
  | joinedNever
  /-- A standalone `never`. -/
  | never
deriving DecidableEq, Repr

/-- **An engine**, by the searches it gives up. -/
class Engine where
  /-- What it says when it gives up the search for a pattern in a text, from a
  place on that is counted in bytes. -/
  givesUp? : Pattern → Text → Nat → Option Text

namespace Engine

/-- **A search that comes to its end**, or the error of one that is given up. -/
def complete [Engine] (p : Pattern) (t : Text) (start : Nat) : Except PatchError Unit :=
  match givesUp? p t start with
  | none => .ok ()
  | some reason => .error (.pattern reason)

/-- **Every match of a pattern replaced.** There is one search from the
beginning of the text, and another one from the end of each match. -/
def replaceAll [Engine] (p : Pattern) (m : Option Char → Text → Option Text) (new t : Text) :
    Except PatchError Text := do
  (t :: Text.behindMatches m none t).forM fun rest =>
    complete p t (t.byteSize - rest.byteSize)
  pure (Text.replaceAll m new none t)

/-- **The engine that never gives up.** -/
@[reducible] def tireless : Engine where
  givesUp? _ _ _ := none

namespace Tireless

attribute [scoped instance] tireless

end Tireless

end Engine

end Fabula
