import Fabula.Union.Variant
import Fabula.Union.Never

/-!
# Union types

A union type is declared as `type Name = A | B | …;`. The declaration runs to
the first `;`, whatever that stands in, and its right-hand side is what lies
between `=` and `;` without the blanks at its ends. Only the keyword `type`
makes a declaration: `Name = …;` alone is none.

Whether a variant is there already is decided by occurrence in the text of the
right-hand side, so a variant that is part of another one counts as there.

A declaration is kept as a decomposition of the source, in front of the
right-hand side, the right-hand side and behind it, so an edit rewrites the
middle part and leaves all other bytes.
-/

namespace Fabula

/-- **A declaration of a union type**, as a decomposition of the source. -/
structure UnionDeclaration where
  /-- The name it was looked up by. -/
  typeName : Text
  /-- The source before the right-hand side. -/
  front : Text
  /-- The right-hand side, without the blanks around it. -/
  rhs : Text
  /-- The source behind the right-hand side. -/
  rest : Text
deriving DecidableEq, Repr

namespace UnionDeclaration

/-- The part of a declaration behind its name: `=` and the text up to `;`.
The answer is the text behind the blanks that follow `=`. -/
def equals? (t : Text) : Option Text :=
  match t.dropWhile isBlank with
  | '=' :: behind =>
    let rhs := behind.dropWhile isBlank
    if rhs.contains ';' then some rhs else none
  | _ => none

/-- **A declaration at the head of a text**: `type`, blanks, the name, `=` and
a text that some `;` ends. The answer is the text from the right-hand side
on. -/
def declares? (typeName : Text) (previous : Option Char) (t : Text) : Option Text :=
  if continuesName previous then none
  else
    match Text.after? "type".toList t with
    | some (c :: cs) =>
      if isBlank c then
        Text.skipBlanks? (fun t => (Text.after? typeName t).bind equals?) cs
      else none
    | _ => none

/-- **The first declaration of a union type.** Its right-hand side is searched
for `never` and rid of it at once: both can be given up, and what they answer
is read off the right-hand side again by `hasNever` and `normalized`. -/
def find [Engine] (typeName source : Text) : Except PatchError UnionDeclaration := do
  Engine.complete (.declaration typeName) source 0
  match Text.search? (declares? typeName) none source with
  | none => .error (.containerNotFound typeName)
  | some (_, tail) => do
    let rhs := Text.trimRight (tail.takeWhile (· != ';'))
    Engine.complete .never rhs 0
    let _ ← Union.withoutNever rhs
    .ok {
      typeName
      front := source.take (source.length - tail.length)
      rhs
      rest := tail.drop rhs.length }

/-- The right-hand side without `never`. -/
def normalized (d : UnionDeclaration) : Text :=
  Union.stripped d.rhs

/-- **The variants**, in order, without `never`. -/
def variants (d : UnionDeclaration) : List Text :=
  ((Union.alternatives d.normalized).map Text.trim).filter (· ≠ [])

/-- Whether `never` is among the alternatives, or anywhere else in the
right-hand side. -/
def hasNever (d : UnionDeclaration) : Bool :=
  Union.hasNever d.rhs

/-- Whether the variant occurs in the right-hand side. -/
def mentions (d : UnionDeclaration) (variant : Text) : Bool :=
  Text.contains d.normalized variant

/-- **The right-hand side with a further variant.** -/
def extended (d : UnionDeclaration) (variant : Text) : Text :=
  if d.normalized = [] then variant else d.normalized ++ " |\n\t".toList ++ variant

/-- **The right-hand side without its first alternative that is `variant`**,
blanks aside; `never` when none is left. -/
def shrunk? (d : UnionDeclaration) (variant : Text) : Option Text :=
  let pieces := Union.alternatives d.rhs
  match pieces.findIdx? fun piece => piece.trim == variant.trim with
  | none => none
  | some i =>
    let remaining := (Text.join ['|'] (pieces.eraseIdx i)).trim
    some (if remaining = [] then Union.neverWord else remaining)

/-- The source with another right-hand side. -/
def replace (d : UnionDeclaration) (rhs : Text) : Text :=
  d.front ++ rhs ++ d.rest

end UnionDeclaration

/-- **Adds a variant to a union type**, once: a variant that occurs in the
right-hand side already changes nothing. -/
def extendUnion [Engine] (typeName variant source : Text) : Except PatchError Text := do
  let d ← UnionDeclaration.find typeName source
  pure (if d.mentions variant then source else d.replace (d.extended variant))

/-- **Takes a variant out of a union type.** -/
def shrinkUnion [Engine] (typeName variant source : Text) : Except PatchError Text := do
  let d ← UnionDeclaration.find typeName source
  match d.shrunk? variant with
  | some rhs => pure (d.replace rhs)
  | none => throw (.variantNotFound typeName variant)

end Fabula
