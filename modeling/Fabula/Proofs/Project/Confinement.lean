import Fabula.Proofs.Disk.Lexical

/-!
# Resolving a path on a plain tree

A path that may not exist yet is resolved by climbing from it to something that does, and
putting the names passed on the way behind. This is how it is checked that an operation stays
inside a folder. On a tree without links it is a long way to a simple answer: the path resolves
to the address it spells, whatever of it exists, and it passes the check against a folder
exactly when that folder exists and its address begins the path's (`Disk.resolve_spells`).

## The climb

It ends because every step takes one name off the path, and a path without names is where it
starts, which exists. So the number of components, which bounds the steps, is never used up
(`Disk.exists_resolve_go`). That what the path starts in is a folder is therefore asked for. It
matters only for a relative path, since the root is one.

What is found at the end of the climb is at the address which that part of the path spells,
because there are no links, and the names that were passed are put behind it in their order.
They may lead through a file, or through nothing. The climb does not look at them, and neither
does the address.

## Spelling

Idle segments are no part of an address. So two spellings of a path resolve alike, and a text
that begins like the text of the folder is not thereby inside of it: what counts is the names
(`Disk.ensureWithin_eq_ok_iff`).
-/

namespace Fabula

namespace Disk

variable {d : Disk} {p root : Path}

/-! ## The climb -/

/-- A path without names leads to the folder it starts in. -/
theorem follow_of_names_eq_nil (hd : d.IsPlain) (hup : p.goesUp = false) (ht : p.text ≠ [])
    (hstart : d.get? (d.startOf p) = some .folder) (hnames : p.names = []) :
    d.follow p = .ok (d.addressOf p) := by
  have haddress : d.addressOf p = d.startOf p := by
    rw [addressOf, hnames, List.append_nil]
  refine (follow_eq_ok_iff hd hup).2 ⟨ht, rfl, ?_, hstart, fun _ => haddress ▸ hstart⟩
  rw [haddress, hstart]
  simp

/-- **A path that starts in a folder can be resolved**, however much of it exists: at the
latest the folder it starts in does. -/
theorem exists_resolve_go (hd : d.IsPlain) (whole : Path) (n : ℕ) {missing : List Text}
    (hup : p.goesUp = false) (ht : p.text ≠ []) (hstart : d.get? (d.startOf p) = some .folder)
    (hn : p.names.length ≤ n) : ∃ a, resolve.go d whole n p missing = .ok a := by
  induction n generalizing p missing with
  | zero =>
    have hnames : p.names = [] := List.eq_nil_of_length_eq_zero (Nat.le_zero.1 hn)
    exact ⟨_, resolve_go_of_ok (follow_of_names_eq_nil hd hup ht hstart hnames) 0 missing⟩
  | succ n ih =>
    cases hf : d.follow p with
    | ok a => exact ⟨_, resolve_go_of_ok hf _ missing⟩
    | error e =>
      by_cases hnames : p.names = []
      · rw [follow_of_names_eq_nil hd hup ht hstart hnames] at hf
        cases hf
      · obtain ⟨q, name, hq, hname, _, hcomp, _⟩ :=
          Path.exists_parent? hup (Path.trimIdle_ne_nil_of_names hnames)
        have hlen : q.names.length ≤ n := by
          have h := congrArg List.length (Path.names_concat hcomp)
          rw [List.length_append, List.length_singleton] at h
          omega
        have hstartq : d.get? (d.startOf q) = some .folder := by
          rw [startOf, ← Path.isAbsolute_concat hcomp]
          exact hstart
        rw [resolve_go_succ hf hname hq]
        by_cases hqt : q.text = []
        · -- the path above is written with nothing, and is looked for as `.`
          rw [if_pos hqt]
          refine ih (by decide) (by simp) ?_ (Nat.zero_le n)
          obtain ⟨text⟩ := q
          obtain rfl : text = [] := hqt
          exact hstartq
        · rw [if_neg hqt]
          exact ih ((Path.goesUp_concat hcomp).symm.trans hup) hqt hstartq hlen

theorem exists_resolve (hd : d.IsPlain) (hup : p.goesUp = false) (ht : p.text ≠ [])
    (hstart : d.get? (d.startOf p) = some .folder) : ∃ a, d.resolve p = .ok a :=
  exists_resolve_go hd p _ hup ht hstart (List.length_filterMap_le _ _)

/-! ## Where it leads -/

/-- **A path resolves to the address it spells.** -/
theorem resolve_eq_ok (hd : d.IsPlain) (hup : p.goesUp = false) (ht : p.text ≠ [])
    (hstart : d.get? (d.startOf p) = some .folder) : d.resolve p = .ok (d.addressOf p) := by
  obtain ⟨a, ha⟩ := exists_resolve hd hup ht hstart
  rw [ha, addressOf_of_resolve hd hup ha]

/-- What exists is at the address its path spells. -/
theorem pathExists_iff (hd : d.IsPlain) (hup : p.goesUp = false) :
    d.pathExists p = true ↔ d.follow p = .ok (d.addressOf p) := by
  rw [pathExists, entryOf?]
  cases hf : d.follow p with
  | error e => simp
  | ok a =>
    obtain rfl := ((follow_eq_ok_iff hd hup).1 hf).2.1
    simp [Option.isSome_iff_ne_none, get?_of_follow hd hf]

/-- **A path passes the check** when the folder exists and its address begins the path's. -/
theorem ensureWithin_eq_ok_iff (hd : d.IsPlain) (hup : p.goesUp = false) (ht : p.text ≠ [])
    (hstart : d.get? (d.startOf p) = some .folder) (hroot : root.goesUp = false) :
    d.ensureWithin p root = .ok () ↔
      d.pathExists root = true ∧ d.addressOf root <+: d.addressOf p := by
  rw [pathExists_iff hd hroot]
  constructor
  · intro h
    obtain ⟨_, folder, hfollow, hwithin⟩ := of_ensureWithin hd h
    obtain rfl := ((follow_eq_ok_iff hd hroot).1 hfollow).2.1
    exact ⟨hfollow, hwithin⟩
  · rintro ⟨hfollow, hwithin⟩
    rw [ensureWithin, hup, hfollow, resolve_eq_ok hd hup ht hstart]
    exact if_pos (List.isPrefixOf_iff_prefix.2 hwithin)

/-- **On a tree without links a path means what it spells.** It resolves to the folder it starts
from with its names behind, whatever is there; and it passes the check exactly when the folder it
is checked against exists and begins its address. Where it starts has to be a folder, which
matters only for a relative path: the root is one. -/
theorem resolve_spells (hd : d.IsPlain) (hup : p.goesUp = false) (ht : p.text ≠ [])
    (hstart : d.get? (d.startOf p) = some .folder) :
    d.resolve p = .ok (d.startOf p ++ p.names) ∧
      ∀ root : Path, root.goesUp = false → (d.ensureWithin p root = .ok () ↔
        d.pathExists root = true ∧ d.startOf root ++ root.names <+: d.startOf p ++ p.names) :=
  ⟨resolve_eq_ok hd hup ht hstart, fun _ hroot => ensureWithin_eq_ok_iff hd hup ht hstart hroot⟩

/-- A project with a note where a path goes on as if it were a folder. -/
def notedDisk : Disk where
  cwd := ["game".toList]
  entries :=
    [(["game".toList], .folder), (["game".toList, "src".toList], .folder),
      (["game".toList, "src".toList, "note".toList], .file (.text []))]

/-- A path through the note and on to what is missing, with idle segments. -/
def throughNote : Path :=
  Path.ofString "src//note/./ann/intro/"

theorem isPlain_notedDisk : notedDisk.IsPlain :=
  isPlain_of_entries (by decide) (by decide) (by decide)

theorem resolve_spells_throughNote :
    notedDisk.IsPlain ∧ throughNote.goesUp = false ∧ throughNote.text ≠ [] ∧
      notedDisk.get? (notedDisk.startOf throughNote) = some .folder ∧
      notedDisk.resolve throughNote =
        .ok (["game", "src", "note", "ann", "intro"].map String.toList) ∧
      notedDisk.ensureWithin throughNote (Path.ofString "./src/") = .ok () := by
  have hup : throughNote.goesUp = false := by decide
  have ht : throughNote.text ≠ [] := by decide
  have hstart : notedDisk.get? (notedDisk.startOf throughNote) = some .folder := by decide
  have h := resolve_spells isPlain_notedDisk hup ht hstart
  refine ⟨isPlain_notedDisk, hup, ht, hstart, h.1, (h.2 _ (by decide)).2 ⟨by decide, ?_⟩⟩
  exact List.isPrefixOf_iff_prefix.1 (by decide)

end Disk

end Fabula
