import Fabula.Patch.Brace
import Fabula.Patch.Engine

/-!
# Containers

A container is a named object literal in a source text. It is either a
property, `name: { … }`, or a binding, `name = { … }`. `Container.locate`
finds the first header of a name and reads the body behind it. It never goes
on to a later header of the same name: when the first one has no readable
body, the container is malformed.

The name is any text, and is looked for as it is written. Only its left side
is guarded: a header does not begin in the middle of a longer name.
-/

namespace Fabula

namespace ContainerKind

/-- The header in the spelling an edit writes. -/
def opening (kind : ContainerKind) (name : Text) : Text :=
  match kind with
  | property => name ++ ": \x7b".toList
  | binding => name ++ " = \x7b".toList

/-- The text as far as the opening brace, and what follows it, when only
blanks come before the brace. -/
def throughBrace? (t : Text) : Option (Text × Text) :=
  match t.dropWhile isBlank with
  | '{' :: rest => some (t.takeWhile isBlank ++ ['{'], rest)
  | _ => none

/-- **A header at the head of a text**: the name, then `:` or `=`, then the
opening brace. Blanks may stand before the brace, and before `=`. The answer
is the header as it is written, and what follows it. -/
def header? (kind : ContainerKind) (name t : Text) : Option (Text × Text) := do
  let rest ← Text.after? name t
  match kind with
  | property =>
    match rest with
    | ':' :: rest =>
      let (brace, rest) ← throughBrace? rest
      pure (name ++ ':' :: brace, rest)
    | _ => none
  | binding =>
    match rest.dropWhile isBlank with
    | '=' :: behind =>
      let (brace, behind) ← throughBrace? behind
      pure (name ++ rest.takeWhile isBlank ++ '=' :: brace, behind)
    | _ => none

/-- A header as a scan looks for it: not in the middle of a longer name. -/
def headerAt? (kind : ContainerKind) (name : Text) (previous : Option Char) (t : Text) :
    Option (Text × Text) :=
  if continuesName previous then none else header? kind name t

end ContainerKind

/-- **A located container**, as a decomposition of the source text. -/
structure Container where
  /-- How the name is tied to the braces. -/
  kind : ContainerKind
  /-- The name it was located by. -/
  name : Text
  /-- The source before the container. -/
  front : Text
  /-- From the first character of the name through the opening brace. -/
  header : Text
  /-- Between the braces. -/
  body : Text
  /-- The source behind the closing brace. -/
  rest : Text
deriving DecidableEq, Repr

namespace Container

/-- The container as it is written, from its name through its closing brace. -/
def written (c : Container) : Text :=
  c.header ++ c.body ++ ['}']

/-- The source with other text in place of the container. -/
def replace (c : Container) (new : Text) : Text :=
  c.front ++ new ++ c.rest

/-- Where the container begins, in bytes. -/
def start (c : Container) : Nat :=
  c.front.byteSize

/-- Where the container ends, in bytes. -/
def stop (c : Container) : Nat :=
  c.start + c.written.byteSize

/-- Whether nothing but blanks stands between the braces. -/
def isEmpty (c : Container) : Bool :=
  c.body.isBlankText

/-- **The first container of a name.** There are two searches: one for the
header, and one for the whole container from where the header stands. -/
def locate [Engine] (kind : ContainerKind) (name source : Text) :
    Except PatchError Container := do
  Engine.complete (.header kind name) source 0
  match Text.search? (kind.headerAt? name) none source with
  | none => .error (.containerNotFound name)
  | some (front, header, behind) => do
    Engine.complete (.container kind name) source front.byteSize
    match Brace.body? false behind with
    | none => .error (.malformedContainer name (Brace.diagnose behind))
    | some (body, rest) => .ok { kind, name, front, header, body, rest }

end Container

end Fabula
