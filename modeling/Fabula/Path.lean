import Fabula.Text.Basic

/-!
# Paths

A path is kept as it was written, since messages, reports and the file system
see that text: `a//b`, `a/./b` and `a/b/` are different texts. What a path
*means* is its components, in which repeated slashes, a trailing slash and
every `.` but a leading one have disappeared. Two paths are the same when
their components are, and one lies below another when its components begin
with the other's.

Both views are read off one decomposition of the text: a lead, which is `/`,
a leading `.`, or nothing, and the segments between the slashes behind it.
-/

namespace Fabula

/-- A part of a path. -/
inductive Component where
  /-- The `/` an absolute path begins with. -/
  | root
  /-- A leading `.`. -/
  | here
  /-- A `..`. -/
  | up
  /-- The name of an entry. -/
  | name (n : Text)
deriving DecidableEq, Repr

namespace Component

/-- Its text. -/
def text : Component → Text
  | root => ['/']
  | here => ['.']
  | up => ['.', '.']
  | name n => n

/-- Where a kind of component stands in the order of components. -/
def rank : Component → Nat
  | root => 0
  | here => 1
  | up => 2
  | name _ => 3

/-- The order of components: by kind, and names by their characters. -/
def lt (a b : Component) : Bool :=
  match a, b with
  | name m, name n => decide (m < n)
  | _, _ => a.rank < b.rank

end Component

/-- **A path, as it was written.** -/
structure Path where
  /-- The text of the path. -/
  text : Text
deriving DecidableEq, Repr

namespace Path

/-- The path a text is. -/
def ofString (s : String) : Path :=
  ⟨s.toList⟩

/-- Whether the path begins at the root. -/
def isAbsolute (p : Path) : Bool :=
  p.text.head? == some '/'

/-- Whether a segment names nothing: it is empty or `.`. -/
def isIdle (segment : Text) : Bool :=
  segment == [] || segment == ['.']

/-- What the text begins with: `/`, a `.` that is the whole first segment, or
nothing. -/
def lead (p : Path) : Text :=
  match p.text with
  | '/' :: _ => ['/']
  | ['.'] => ['.']
  | '.' :: '/' :: _ => ['.']
  | _ => []

/-- The segments behind the lead, idle ones included. -/
def segments (p : Path) : List Text :=
  Text.split '/' (p.text.drop p.lead.length)

/-- The component a segment is. -/
def component (segment : Text) : Component :=
  if segment = ['.', '.'] then .up else .name segment

/-- The component the lead is. -/
def leadComponents (p : Path) : List Component :=
  match p.lead with
  | ['/'] => [.root]
  | ['.'] => [.here]
  | _ => []

/-- **The components of a path.** -/
def components (p : Path) : List Component :=
  p.leadComponents ++ (p.segments.filter fun s => !isIdle s).map component

/-- Whether two paths mean the same. -/
def same (p q : Path) : Bool :=
  p.components == q.components

/-- Whether a path lies at `q` or below it. -/
def isWithin (p q : Path) : Bool :=
  q.components.isPrefixOf p.components

/-- Whether `..` occurs in the path. -/
def goesUp (p : Path) : Bool :=
  p.components.contains .up

/-- The order of paths: that of their components, the first difference
deciding, and a path before those below it. -/
def lt (p q : Path) : Bool :=
  go p.components q.components
where
  /-- The order of two lists of components. -/
  go : List Component → List Component → Bool
    | [], [] => false
    | [], _ :: _ => true
    | _ :: _, [] => false
    | a :: as, b :: bs => if a = b then go as bs else a.lt b

/-! ## Building paths and taking them apart -/

/-- **A path seen from another one**: an absolute path is itself, any other is
written behind `p` and a slash. -/
def join (p : Path) (q : Text) : Path :=
  if q.head? = some '/' then ⟨q⟩
  else if p.text = [] || p.text.getLast? == some '/' then ⟨p.text ++ q⟩
  else ⟨p.text ++ '/' :: q⟩

/-- The segments without the idle ones at the end. -/
def trimIdle (segments : List Text) : List Text :=
  (segments.reverse.dropWhile isIdle).reverse

/-- The name of the entry a path leads to; nothing when its last component is
no name. -/
def fileName? (p : Path) : Option Text :=
  match (trimIdle p.segments).getLast? with
  | some segment => if segment = ['.', '.'] then none else some segment
  | none => none

/-- **The path without its last component**, as it is written; the root and
the empty path have none. -/
def parent? (p : Path) : Option Path :=
  match trimIdle p.segments with
  | [] => if p.lead = ['.'] then some ⟨[]⟩ else none
  | segments => some ⟨p.lead ++ Text.join ['/'] (trimIdle segments.dropLast)⟩

/-- The segments behind the first `n` that name something. -/
def behind (n : Nat) : List Text → List Text
  | [] => []
  | segment :: segments =>
    if isIdle segment then behind n segments
    else if n = 0 then segment :: segments
    else behind (n - 1) segments

/-- **The path as it is written from `q` on**, when it lies at `q` or below
it. -/
def within? (p q : Path) : Option Path :=
  if p.isWithin q then
    if q.components = [] then some ⟨p.lead ++ Text.join ['/'] (trimIdle p.segments)⟩
    else
      let named := q.components.length - q.leadComponents.length
      some ⟨Text.join ['/'] (behind named (trimIdle p.segments))⟩
  else none

/-- The path and the paths above it, as far as they can be written. -/
def ancestors (p : Path) : List Path :=
  go p.components.length p
where
  /-- A path has no more ancestors than components. -/
  go : Nat → Path → List Path
    | 0, p => [p]
    | n + 1, p =>
      match p.parent? with
      | some parent => p :: go n parent
      | none => [p]

end Path

end Fabula
