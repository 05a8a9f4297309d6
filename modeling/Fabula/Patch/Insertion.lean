import Fabula.Text.Line
import Fabula.Patch.Container

/-!
# Appending an entry to a container

The new entry goes last, on lines of its own, one tab deeper than the closing
brace, and the container is written anew around it: header, the old body
trimmed, the entry, and the closing brace at its old depth. Nothing checks
whether the key is there already: appending an entry twice writes it twice.

The header is kept as it is written, and so is everything around the container.
Of the old body only the blanks at its ends are lost. So an insertion can be
told by the container that is found before and the one that is found after it,
and two insertions into different containers do not see each other, as long as
both containers are found where they were.
-/

namespace Fabula

/-- How the entries of a container are ended. -/
inductive Punctuation where
  /-- Entries of a value: `thomas: Thomas,`. -/
  | comma
  /-- Members of a type: `thomas: TCharacter;`. -/
  | semicolon
deriving DecidableEq, Repr

namespace Punctuation

/-- The character that ends an entry. -/
def char : Punctuation → Char
  | comma => ','
  | semicolon => ';'

end Punctuation

namespace Text

/-- A tab or a space. -/
def isIndentChar (c : Char) : Bool :=
  c == ' ' || c == '\t'

/-- **The depth of a closing brace**: the tabs and spaces directly before the
brace that ends the text. -/
def depth (t : Text) : Text :=
  ((((before? ['}'] t).getD t).reverse).takeWhile isIndentChar).reverse

/-- **An entry one level deeper than `depth`**, every line of it. -/
def indent (depth entry : Text) : Text :=
  join ['\n'] ((split '\n' entry).map fun line => depth ++ '\t' :: line)

end Text

namespace Container

/-- The depth of the closing brace. -/
def depth (c : Container) : Text :=
  c.written.depth

/-- The old entries as they are written before a new one: on one line with
the header's, and ended by a comma where entries are separated by commas. -/
def keptEntries (c : Container) (punctuation : Punctuation) : Text :=
  let kept := c.body.trim
  if punctuation = .comma && !kept.endsWith [','] then kept ++ [','] else kept

/-- **The container with `entry` as its last entry.** -/
def withEntry (c : Container) (entry : Text) (punctuation : Punctuation) : Text :=
  c.kind.opening c.name ++
    (if c.isEmpty then ['\n'] else '\n' :: c.depth ++ '\t' :: c.keptEntries punctuation ++ ['\n']) ++
    Text.indent c.depth entry ++ [punctuation.char, '\n'] ++ c.depth ++ ['}']

end Container

/-- **Appends `entry` to the first container of a name.** -/
def insertEntry [Engine] (kind : ContainerKind) (name entry : Text) (punctuation : Punctuation)
    (source : Text) : Except PatchError Text := do
  let c ← Container.locate kind name source
  pure (c.replace (c.withEntry entry punctuation))

end Fabula
