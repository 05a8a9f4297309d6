import Fabula.Disk.Operations
import Fabula.Failure

/-!
# Staying inside the data folder

Before anything is read or changed at a path, the path is resolved: links are
followed as far as the path exists, and the names that do not exist yet are
put behind. The address so found has to lie in the data folder. A path with
`..` is refused without being resolved.

So two different things decide. The names that exist are followed, and a link
among them counts by where it leads. The names that do not exist count as they
are written, and as `..` is refused they can only lead further down. What is
compared in the end are addresses, name by name.
-/

namespace Fabula

namespace Disk

/-- **The address of a path whose end may not exist yet**: that of the nearest
path above it that exists, with the missing names behind. -/
def resolve (d : Disk) (p : Path) : Outcome Address :=
  go p.components.length p []
where
  /-- `missing` are the names behind the path that do not exist; a path has no
  more of them than components. -/
  go : Nat → Path → List Text → Outcome Address
    | n, existing, missing =>
      match d.follow existing with
      | .ok a => .ok (a ++ missing)
      | .error _ =>
        match n, existing.fileName?, existing.parent? with
        | n + 1, some name, some parent =>
          go n (if parent.text = [] then ⟨['.']⟩ else parent) (name :: missing)
        | _, _, _ => .fail (.unresolvable p)

/-- **Passes a path that stays inside a folder**, or refuses it. -/
def ensureWithin (d : Disk) (p root : Path) : Outcome Unit :=
  if p.goesUp then .fail (.goesUp p)
  else
    match d.follow root with
    | .error e => .fail (.noDataFolder root e)
    | .ok folder => do
      let a ← d.resolve p
      if folder.isPrefixOf a then .ok () else .fail (.outside p root)

end Disk

end Fabula
