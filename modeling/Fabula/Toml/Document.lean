import Fabula.Toml.Reading

/-!
# TOML documents

A document is a list of statements, one a line: a pair, a header, or nothing.
A header says which table the pairs below it belong to; those above the first
header belong to the document's own table.
-/

namespace Fabula

namespace Toml

/-- **A statement.** Its keys lead to a table, in which the last one is. -/
inductive Statement where
  | pair (path : List Text) (key : Text) (v : Value)
  /-- The header of a table. -/
  | table (path : List Text) (key : Text)
  /-- The header of a further table of an array of tables. -/
  | element (path : List Text) (key : Text)
deriving DecidableEq, Repr

/-- How deep arrays and inline tables may be nested. -/
def maxDepth : Nat := 80

/-- **Reads the statement at the start of a line**, where there is one. -/
def readStatement? (t : Text) : Option (Option Statement × Text) :=
  match dropBlanks t with
  | [] => some (none, [])
  | '[' :: '[' :: rest => do
    let ((path, key), rest) ← readPath? rest
    let rest ← Text.after? "]]".toList rest
    pure (some (.element path key), rest)
  | '[' :: rest => do
    let ((path, key), rest) ← readPath? rest
    let rest ← Text.after? [']'] rest
    pure (some (.table path key), rest)
  | c :: rest =>
    if c = '#' || isLineEnd c rest then some (none, c :: rest)
    else do
      let (((path, key), v), rest) ← readPair? (readValue? maxDepth) (c :: rest)
      pure (some (.pair path key v), rest)

/-- **The statements of a text.** -/
def readStatements? (t : Text) : Option (List Statement) :=
  if t = [] then some []
  else
    match readStatement? t with
    | none => none
    | some (statement, rest) =>
      match afterLine? false rest with
      | none => none
      | some next =>
        if next.length < t.length then
          (readStatements? next).map fun statements => statement.toList ++ statements
        else none
termination_by t.length

/-- **A document while it is read**: its table, and the keys that lead to the
open one. -/
structure Draft where
  table : Table := []
  opened : List Text := []

namespace Draft

/-- The document with a further statement, if that fits. -/
def add? (draft : Draft) : Statement → Option Draft
  | .pair path key v => do
    let table ← draft.table.within? (·.insert? key v path) draft.opened
    pure { draft with table }
  | .table path key => do
    let table ← draft.table.within? (·.openTable? key) path
    pure ⟨table, path ++ [key]⟩
  | .element path key => do
    let table ← draft.table.within? (·.openElement? key) path
    pure ⟨table, path ++ [key]⟩

end Draft

/-- **The table of a document.** A byte order mark in front is passed over. -/
def read? (t : Text) : Option Table := do
  let statements ← readStatements? ((Text.after? ['\ufeff'] t).getD t)
  let draft ← statements.foldlM Draft.add? {}
  pure draft.table

end Toml

end Fabula
