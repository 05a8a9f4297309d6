import Fabula.Text.Basic

/-!
# Why an edit is refused

Edits work on files people also edit by hand, so what an edit looks for may be
missing or out of shape. There are four such causes, and each carries the
names its message needs. The fifth has nothing to do with the text itself: the
pattern to search for could not be compiled, or the search was given up before
it had an answer. What makes an engine give up is its own affair, and so are
the words for it.
-/

namespace Fabula

/-- What is wrong with the braces of a container. -/
inductive Malformation where
  /-- The entries nest braces this many levels deep, which is more than one. -/
  | tooDeep (levels : Nat)
  /-- The opening brace is never closed. -/
  | unclosed
deriving DecidableEq, Repr

namespace Malformation

/-- The words for it. -/
def reason : Malformation → Text
  | tooDeep levels =>
    "entries nest ".toList ++ Text.ofNat levels ++
      " levels of braces, at most 1 is supported".toList
  | unclosed => "no matching closing brace".toList

end Malformation

/-- **Why an edit of a text is refused.** -/
inductive PatchError where
  /-- No container, or no union type, of this name. -/
  | containerNotFound (name : Text)
  /-- The first container of this name has no body that could be read. -/
  | malformedContainer (name : Text) (malformation : Malformation)
  /-- No entry of this key in the container. -/
  | entryNotFound (container key : Text)
  /-- No such variant in the union type. -/
  | variantNotFound (typeName variant : Text)
  /-- A pattern could not be compiled, or the search for it was given up. -/
  | pattern (reason : Text)
deriving DecidableEq, Repr

namespace PatchError

/-- The message a user reads. -/
def message : PatchError → Text
  | containerNotFound name => "container '".toList ++ name ++ "' not found".toList
  | malformedContainer name malformation =>
    "container '".toList ++ name ++ "' is malformed: ".toList ++ malformation.reason
  | entryNotFound container key =>
    "entry '".toList ++ key ++ "' not found in container '".toList ++ container ++ "'".toList
  | variantNotFound typeName variant =>
    "variant ".toList ++ variant ++ " not found in union type '".toList ++ typeName ++ "'".toList
  | pattern reason => "pattern error: ".toList ++ reason

end PatchError

end Fabula
