import Fabula.Text.Line
import Fabula.Patch.Container

/-!
# Removing the entries of a key

An entry is found by its key and a colon, with the blanks before it. It is
either an object, `key: { … }` with the rest of the line its closing brace
stands on, or else whatever stands on the line. Objects are looked for first,
and lines only where there is no object. All of a container's entries of the
key go, each leaving a single line break behind, which also ends the entry
before it.

The container is searched as it is written, header included, and a key is
looked for as it is written, with only its left side guarded.
-/

namespace Fabula

namespace Removal

/-- The key and its colon at the head of a text: what follows them. -/
def key? (key t : Text) : Option Text :=
  match Text.after? key t with
  | some (':' :: rest) => some rest
  | _ => none

/-- **An object entry**: blanks, the key, one level of braces and the rest of
the line. -/
def object? (key : Text) (previous : Option Char) (t : Text) : Option Text :=
  if continuesName previous then none
  else
    Text.skipBlanks? (fun t => do
      let rest ← key? key t
      let (_, behind) ← ContainerKind.throughBrace? rest
      let (_, behind) ← Brace.body? false behind
      Text.afterLine? behind) t

/-- **A line entry**: blanks, the key and the rest of the line. -/
def line? (key : Text) (previous : Option Char) (t : Text) : Option Text :=
  if continuesName previous then none
  else
    Text.skipBlanks? (fun t => do
      let rest ← key? key t
      Text.afterLine? rest) t

end Removal

namespace Container

/-- **The container without the entries of `key`.** -/
def withoutEntry [Engine] (c : Container) (key : Text) : Except PatchError Text := do
  let withoutObjects ←
    Engine.replaceAll (.objectEntry key) (Removal.object? key) ['\n'] c.written
  if withoutObjects ≠ c.written then .ok withoutObjects
  else do
    let withoutLines ← Engine.replaceAll (.lineEntry key) (Removal.line? key) ['\n'] c.written
    if withoutLines ≠ c.written then .ok withoutLines
    else .error (.entryNotFound c.name key)

end Container

/-- **Removes the entries of `key` from the first container of a name.** -/
def removeEntry [Engine] (kind : ContainerKind) (name key source : Text) :
    Except PatchError Text := do
  let c ← Container.locate kind name source
  let written ← c.withoutEntry key
  pure (c.replace written)

end Fabula
