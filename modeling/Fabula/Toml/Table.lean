import Fabula.Text.Basic

/-!
# TOML tables

A document is a tree of tables, written in pieces: headers open tables, and
pairs put values into the open one. Which pieces may meet in one table is the
delicate part of the format. It depends on how the table came about:

* a table with a header of its own gets its pairs below that header only;
* a table that was merely passed on the way to another one may still get its
  header, once;
* a table that dotted keys made grows by dotted keys only;
* an array or an inline table is a value, complete as it is written.

So every table remembers its origin, and a piece that does not fit is refused.
-/

namespace Fabula

namespace Toml

/-- **A value.** Texts and flags are kept. Of a number, a time, an array or an
inline table nothing is asked but that it is well formed. -/
inductive Value where
  | text (t : Text)
  | flag (b : Bool)
  | other
deriving DecidableEq, Repr

/-- **How a table came about.** -/
inductive Origin where
  /-- It has a header. -/
  | header
  /-- It was passed on the way of a header. -/
  | passed
  /-- Dotted keys made it. -/
  | dotted
deriving DecidableEq, Repr

/-- **What stands behind a key.** -/
inductive Node where
  | value (v : Value)
  | table (origin : Origin) (entries : List (Text × Node))
  /-- An array of tables, of which the newest is open. -/
  | tables (newest : List (Text × Node)) (earlier : List (List (Text × Node)))

/-- **A table**: its keys, in the order in which they appeared. -/
abbrev Table := List (Text × Node)

namespace Table

/-- What stands behind a key. -/
def get? (key : Text) (t : Table) : Option Node :=
  t.lookup key

/-- The table with another node behind a key, which `f` makes of the one that
was there, or refuses to make. -/
def alter? (f : Option Node → Option Node) (key : Text) : Table → Option Table
  | [] => (f none).map fun node => [(key, node)]
  | (k, node) :: rest =>
    if k = key then (f (some node)).map fun node => (k, node) :: rest
    else (alter? f key rest).map ((k, node) :: ·)

/-- **The table with the table that `path` leads to changed by `f`.** The way
passes tables, and the newest of an array of tables; what is missing on it is
made. -/
def within? (f : Table → Option Table) : List Text → Table → Option Table
  | [], t => f t
  | key :: path, t =>
    t.alter? (fun node? =>
      match node? with
      | none => (within? f path []).map (.table .passed)
      | some (.table origin inner) => (within? f path inner).map (.table origin)
      | some (.tables newest earlier) => (within? f path newest).map (.tables · earlier)
      | some (.value _) => none) key

/-- **Puts a value behind a key** that is reached by way of dotted ones. -/
def insert? (key : Text) (v : Value) : List Text → Table → Option Table
  | [], t => t.alter? (fun node? => if node?.isSome then none else some (.value v)) key
  | first :: path, t =>
    t.alter? (fun node? =>
      match node? with
      | none => (insert? key v path []).map (.table .dotted)
      | some (.table .dotted inner) => (insert? key v path inner).map (.table .dotted)
      | some (.table .passed inner) =>
        if path = [] then none else (insert? key v path inner).map (.table .passed)
      | some (.tables newest earlier) =>
        if path = [] then none else (insert? key v path newest).map (.tables · earlier)
      | some (.table .header _) => none
      | some (.value _) => none) first

/-- Opens a table by its header. -/
def openTable? (key : Text) (t : Table) : Option Table :=
  t.alter? (fun node? =>
    match node? with
    | none => some (.table .header [])
    | some (.table .passed inner) => some (.table .header inner)
    | some _ => none) key

/-- Opens a further table of an array of tables. -/
def openElement? (key : Text) (t : Table) : Option Table :=
  t.alter? (fun node? =>
    match node? with
    | none => some (.tables [] [])
    | some (.tables newest earlier) => some (.tables [] (newest :: earlier))
    | some _ => none) key

end Table

end Toml

end Fabula
