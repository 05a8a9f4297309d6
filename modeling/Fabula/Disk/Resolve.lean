import Fabula.Disk.Basic

/-!
# Following a path

A path is followed name by name from the root or the working folder. A name
must be an entry of the folder reached so far; a link on the way is replaced
by its target; `..` leads to the folder above. The walk may end in three ways
that differ in what may be at the last name: something that exists, links
followed to the end; whatever entry there is, a link being the entry itself;
or nothing, where something is to be made.

The three ends are those of three system calls: to open what is there, to rename
or remove an entry, and to create one. They differ at the last name only, so
there is one walk, with the end as a parameter. Links are counted on the way,
since they may lead in circles. The walk over the names behind a link is a walk
with one link less, which is what the recursion is on.
-/

namespace Fabula

/-- A step on the way a path describes. -/
inductive PathStep where
  /-- To the entry of this name. -/
  | enter (name : Text)
  /-- To the folder above. -/
  | up
  /-- Nowhere, though what was reached has to be a folder. -/
  | stay
deriving DecidableEq, Repr

namespace Path

/-- The steps of a path: every segment but an empty one in the middle, a
slash at the end counting as `.`. -/
def steps (p : Path) : List PathStep :=
  go (Text.split '/' p.text)
where
  /-- The steps of the segments that are left. -/
  go : List Text → List PathStep
    | [] => []
    | [last] => if last = [] then [.stay] else [step last]
    | segment :: segments => if segment = [] then go segments else step segment :: go segments
  /-- The step of a segment. -/
  step (segment : Text) : PathStep :=
    if segment = ['.'] then .stay
    else if segment = ['.', '.'] then .up
    else .enter segment

/-- The steps to the entry a path names: slashes at the end lead nowhere, but a
`.` there is a step of its own. -/
def entrySteps (p : Path) : List PathStep :=
  if p.text.getLast? = some '/' then p.steps.dropLast else p.steps

/-- Whether the path ends in a name, slashes behind it aside. -/
def endsInName (p : Path) : Bool :=
  match p.entrySteps.getLast? with
  | some (.enter _) => true
  | _ => false

end Path

/-- **What may be at the end of a path.** -/
inductive Ending where
  /-- Something that exists; links are followed. -/
  | existing
  /-- An entry, whether there is one or not; a link is the entry. -/
  | entry
  /-- A place for a file, whether there is something or not; links are
  followed, also where they lead to nothing. -/
  | place
deriving DecidableEq, Repr

namespace Disk

/-- How many links are followed on one path. -/
def maxLinks : Nat := 40

/-- **Follows steps from an address**, and a link by what is to be done at one: it is
given the address of the folder the link is in, the link, and the steps behind it. -/
def walkWith (d : Disk) (ending : Ending)
    (link : Address → Path → List PathStep → Except DiskError Address) (a : Address)
    (steps : List PathStep) : Except DiskError Address :=
  match steps with
  | [] => .ok a
  | step :: steps =>
    if !d.isFolderAt a then .error .notFolder
    else
      match step with
      | .stay => walkWith d ending link a steps
      | .up => walkWith d ending link a.dropLast steps
      | .enter name =>
        match d.get? (a ++ [name]) with
        | none =>
          if steps = [] ∧ ending ≠ .existing then .ok (a ++ [name]) else .error .notFound
        | some (.link target) =>
          if steps = [] ∧ ending = .entry then .ok (a ++ [name]) else link a target steps
        | some _ => walkWith d ending link (a ++ [name]) steps

/-- **Follows steps from an address.** `links` more links may be followed. -/
def walk (d : Disk) (ending : Ending) :
    Nat → Address → List PathStep → Except DiskError Address
  | 0 => d.walkWith ending fun _ _ _ => .error .tooManyLinks
  | links + 1 => d.walkWith ending fun a target steps =>
    if target.text = [] then .error .notFound
    else walk d ending links (if target.isAbsolute then [] else a) (target.steps ++ steps)

/-- Where a path starts. -/
def startOf (d : Disk) (p : Path) : Address :=
  if p.isAbsolute then [] else d.cwd

/-- **The address a path leads to**; the empty path leads nowhere. -/
def follow (d : Disk) (p : Path) : Except DiskError Address :=
  if p.text = [] then .error .notFound
  else d.walk .existing maxLinks (d.startOf p) p.steps

/-- **The address of the entry a path names**, whether or not it exists. -/
def entryAddress (d : Disk) (p : Path) : Except DiskError Address :=
  if p.text = [] then .error .notFound
  else d.walk .entry maxLinks (d.startOf p) p.entrySteps

/-- **The address at which a file written to a path would be.** -/
def placeOf (d : Disk) (p : Path) : Except DiskError Address :=
  if p.text = [] then .error .notFound
  else d.walk .place maxLinks (d.startOf p) p.steps

/-- What a path leads to. -/
def entryOf? (d : Disk) (p : Path) : Option Entry :=
  match d.follow p with
  | .ok a => d.get? a
  | .error _ => none

/-- Whether a path leads to something. -/
def pathExists (d : Disk) (p : Path) : Bool :=
  (d.entryOf? p).isSome

/-- Whether a path leads to a file. -/
def isFile (d : Disk) (p : Path) : Bool :=
  match d.entryOf? p with
  | some (.file _) => true
  | _ => false

/-- Whether a path leads to a folder. -/
def isFolder (d : Disk) (p : Path) : Bool :=
  d.entryOf? p == some .folder

/-- The path of an address. -/
def pathOf (a : Address) : Path :=
  ⟨'/' :: Text.join ['/'] a⟩

/-- A path seen from the root. -/
def absolute (d : Disk) (p : Path) : Path :=
  (pathOf d.cwd).join p.text

end Disk

end Fabula
