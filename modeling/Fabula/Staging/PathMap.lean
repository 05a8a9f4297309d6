import Fabula.Path

/-!
# Values kept by path

A list of paths with a value each, in the order of the paths and with no two
paths that mean the same. The first spelling of a path stays.

Looking a path up compares components and not texts, so that all spellings of a
path are the same key. The order is that of the components, too, which makes the
order in which files are written a matter of where they are and not of how they
are spelled.
-/

namespace Fabula

/-- **Values kept by path.** -/
abbrev PathMap (α : Type) := List (Path × α)

namespace PathMap

variable {α : Type}

/-- The value kept for a path. -/
def find? (m : PathMap α) (p : Path) : Option α :=
  match m with
  | [] => none
  | (q, a) :: rest => if q.same p then some a else find? rest p

/-- Whether a value is kept for a path. -/
def holds (m : PathMap α) (p : Path) : Bool :=
  (find? m p).isSome

/-- The map with a value for a path, in place of the one it had. -/
def insert (m : PathMap α) (p : Path) (a : α) : PathMap α :=
  match m with
  | [] => [(p, a)]
  | (q, b) :: rest =>
    if q.same p then (q, a) :: rest
    else if p.lt q then (p, a) :: (q, b) :: rest
    else (q, b) :: insert rest p a

end PathMap

end Fabula
