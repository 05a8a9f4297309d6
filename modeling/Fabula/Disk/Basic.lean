import Fabula.Disk.Error
import Fabula.Path

/-!
# The disk

A disk is a finite map from addresses to entries: files, folders and symbolic
links. An address is the list of names that lead from the root to an entry,
without links and without `..`, so an entry lies in a folder exactly when its
address goes on from the folder's. The root is a folder and is not listed.

Keeping the map flat makes a whole subtree as easy to say as one entry: what
lies at `a` or below it is what has `a` as the beginning of its address.
`Disk.get?` is the view through which a disk is read; every change is
described by what it does to this view.
-/

namespace Fabula

/-- **Where an entry is**: the names that lead to it from the root. -/
abbrev Address := List Text

/-- What a file holds. -/
inductive Content where
  /-- A text. -/
  | text (t : Text)
  /-- Bytes that are no text. -/
  | bytes (b : List UInt8)
deriving DecidableEq, Repr

/-- **An entry of the disk.** -/
inductive Entry where
  | file (content : Content)
  | folder
  /-- A symbolic link, which leads where its target leads from the folder the
  link is in. -/
  | link (target : Path)
deriving DecidableEq, Repr

/-- The length of the text of a link, which no name on its way exceeds. -/
def Entry.linkLength : Entry → Nat
  | link target => target.text.length
  | _ => 0

/-- **A disk**, and the folder relative paths start from. -/
structure Disk where
  /-- The working folder. -/
  cwd : Address
  /-- The entries, the root excepted. -/
  entries : List (Address × Entry)
deriving DecidableEq, Repr

namespace Disk

/-- **The entry at an address.** -/
def get? (d : Disk) (a : Address) : Option Entry :=
  if a = [] then some .folder else d.entries.lookup a

/-- Whether there is a folder at an address. -/
def isFolderAt (d : Disk) (a : Address) : Bool :=
  d.get? a == some .folder

/-- The disk with an entry at an address, in place of what was there. -/
def put (d : Disk) (a : Address) (e : Entry) : Disk :=
  { d with entries := (a, e) :: d.entries.filter fun x => x.1 != a }

/-- The disk without what is at an address and below it. -/
def cutTree (d : Disk) (a : Address) : Disk :=
  { d with entries := d.entries.filter fun x => !a.isPrefixOf x.1 }

/-- The disk with what is at `a` and below it moved to `b`. Nothing may be at
`b`, which must not lie below `a`. -/
def moveTree (d : Disk) (a b : Address) : Disk :=
  { d with entries := d.entries.map fun x =>
      if a.isPrefixOf x.1 then (b ++ x.1.drop a.length, x.2) else x }

/-- The names of the entries of a folder, each with its entry, in the order
of the names. -/
def list (d : Disk) (a : Address) : List (Text × Entry) :=
  let found := d.entries.filterMap fun (b, e) =>
    match b.getLast? with
    | some name => if b.dropLast = a then some (name, e) else none
    | none => none
  found.mergeSort fun x y => !decide (y.1 < x.1)

/-- The length of the longest name on the disk: those of the entries, those that lead to the
working folder, and those that links lead by. -/
def longestName (d : Disk) : Nat :=
  ((d.cwd ++ (d.entries.map Prod.fst).flatten).map List.length ++
    d.entries.map fun x => x.2.linkLength).foldr max 0

/-- A name that no entry has, and that occurs in no text of up to `reserved`
characters: it is longer than all of them. -/
def freshName (d : Disk) (reserved : Nat) (stem : Text) : Text :=
  stem ++ List.replicate (max d.longestName reserved + 1) 'x'

/-! ## The view -/

@[simp] theorem get?_root (d : Disk) : d.get? [] = some .folder := rfl

theorem lookup_cons_self (a : Address) (e : Entry) (entries : List (Address × Entry)) :
    ((a, e) :: entries).lookup a = some e := by
  rw [List.lookup_cons, beq_self_eq_true]

theorem lookup_cons_ne {a b : Address} (h : a ≠ b) (e : Entry)
    (entries : List (Address × Entry)) : ((b, e) :: entries).lookup a = entries.lookup a := by
  rw [List.lookup_cons, beq_eq_false_iff_ne.2 h]

/-- Keeping the entries at some addresses keeps the view there, and empties it
elsewhere. -/
theorem lookup_filter (p : Address → Bool) (a : Address) (entries : List (Address × Entry)) :
    (entries.filter fun x => p x.1).lookup a = if p a then entries.lookup a else none := by
  induction entries with
  | nil => simp
  | cons x xs ih =>
    obtain ⟨c, e⟩ := x
    rw [List.filter_cons]
    by_cases h : a = c
    · subst h
      by_cases hp : p a
      · rw [if_pos hp, if_pos hp, lookup_cons_self, lookup_cons_self]
      · rw [if_neg hp, if_neg hp, ih, if_neg hp]
    · rw [lookup_cons_ne h]
      split
      · rw [lookup_cons_ne h, ih]
      · exact ih

/-- Writing an entry changes the view at its address and nowhere else. -/
theorem get?_put (d : Disk) (a b : Address) (e : Entry) :
    (d.put b e).get? a = if a = [] then some .folder else if a = b then some e else d.get? a := by
  unfold get? put
  by_cases h : a = []
  · rw [if_pos h, if_pos h]
  · rw [if_neg h, if_neg h]
    by_cases hb : a = b
    · subst hb
      rw [if_pos rfl]
      exact lookup_cons_self a e _
    · rw [if_neg hb, if_neg h]
      rw [lookup_cons_ne hb, lookup_filter (· != b), if_pos (bne_iff_ne.2 hb)]

/-- Cutting a subtree empties the view at its root and below, and changes
nothing else. -/
theorem get?_cutTree (d : Disk) {a b : Address} (h : a ≠ []) :
    (d.cutTree b).get? a = if b.isPrefixOf a then none else d.get? a := by
  unfold get? cutTree
  rw [if_neg h, if_neg h]
  rw [lookup_filter (fun x => !b.isPrefixOf x)]
  cases b.isPrefixOf a <;> rfl

end Disk

end Fabula
