import Fabula.Proofs.Registry.Passages

/-!
# The written form of a passage

A passage is written as its three ids with hyphens between them. This form is what is stored in
the files of a project, and a passage is known there by it alone, so it should determine the
passage.

No id has a hyphen. Therefore the pieces between the hyphens of the written form are the ids
again (`PassageRef.IsValid.split_display`), and there are three of them. Reading splits a text
at its hyphens and checks that the pieces are three ids. So it accepts the written forms of
passages of three ids and nothing else (`PassageRef.parse_eq_ok_iff`): a text with more hyphens
has more pieces, one with fewer has fewer, and an empty piece is not an id.

Everything else follows from that equivalence. Writing and reading undo each other, on either
side. No two passages are written alike, since what they are written as is read in one way only,
and no two have one literal, which is the written form between quotes. All four are put together
for the passages that were made from three texts, as these are the ones which exist in a program
(`PassageRef.display_decodes`). That the ids may be made of the same letters does not matter,
because it is the places of the hyphens that tell them apart.
-/

namespace Fabula

namespace PassageRef

variable {p q : PassageRef} {s : Text}

/-- The written form is the three ids put together. -/
theorem display_eq_join (p : PassageRef) :
    p.display = Text.join ['-'] [p.event, p.character, p.passage] := by
  simp [display, Text.join_cons]

/-- **The pieces of the written form** are the ids. -/
theorem IsValid.split_display (h : p.IsValid) :
    Text.split '-' p.display = [p.event, p.character, p.passage] := by
  have hdash : ∀ {id : Text}, id.isId = true → '-' ∉ id := fun hid =>
    (isWord_of_isId hid).not_mem (by decide)
  rw [display_eq_join]
  refine Text.split_join (List.cons_ne_nil _ _) ?_
  simp only [List.forall_mem_cons, List.not_mem_nil, false_imp_iff, implies_true, and_true]
  exact ⟨hdash h.event, hdash h.character, hdash h.passage⟩

/-- **Reading accepts the written forms of passages**, and nothing else. -/
theorem parse_eq_ok_iff : parse s = .ok p ↔ s = p.display ∧ p.IsValid := by
  constructor
  · intro h
    unfold parse at h
    split at h
    · rename_i event character passage hsplit
      obtain ⟨rfl, hvalid⟩ := make_eq_ok_iff.1 h
      refine ⟨?_, hvalid⟩
      rw [display_eq_join, ← hsplit, Text.join_split]
    · cases h
  · rintro ⟨rfl, h⟩
    unfold parse
    rw [h.split_display]
    exact make_eq_ok_iff.2 ⟨rfl, h⟩

/-- What was made of three ids is a passage of three ids. -/
theorem isValid_of_make {event character passage : Text}
    (h : make event character passage = .ok p) : p.IsValid :=
  (make_eq_ok_iff.1 h).2

/-- **No two passages are written alike.** -/
theorem display_injective (hp : p.IsValid) (hq : q.IsValid) (h : p.display = q.display) :
    p = q := by
  have hread := parse_eq_ok_iff.2 ⟨rfl, hp⟩
  exact Except.ok.inj (hread.symm.trans (parse_eq_ok_iff.2 ⟨h, hq⟩))

/-- A literal is the written form between quotes. -/
theorem display_eq_of_literal_eq (h : p.literal = q.literal) : p.display = q.display :=
  List.append_cancel_right (List.cons.inj h).2

/-- **Passage ids decode uniquely.** A text is read as a passage when it is the written form of
that passage and the passage has three ids. So a passage that was made is read back from its
written form, whatever is read is written as it was, and two passages that were made are the
same when their written forms or their literals are. -/
theorem display_decodes :
    (∀ (s : Text) (p : PassageRef), parse s = .ok p ↔
      s = p.display ∧ p.event.isId = true ∧ p.character.isId = true ∧ p.passage.isId = true) ∧
    (∀ (event character passage : Text) (p : PassageRef),
      make event character passage = .ok p → parse p.display = .ok p) ∧
    (∀ (s : Text) (p : PassageRef), parse s = .ok p → p.display = s) ∧
    ∀ (event character passage event' character' passage' : Text) (p q : PassageRef),
      make event character passage = .ok p → make event' character' passage' = .ok q →
      p.display = q.display ∨ p.literal = q.literal → p = q := by
  refine ⟨fun s p => ?_, fun _ _ _ p hp => ?_, fun s p hs => ?_, fun _ _ _ _ _ _ p q hp hq h => ?_⟩
  · rw [parse_eq_ok_iff]
    exact ⟨fun h => ⟨h.1, h.2.event, h.2.character, h.2.passage⟩,
      fun h => ⟨h.1, h.2.1, h.2.2.1, h.2.2.2⟩⟩
  · exact parse_eq_ok_iff.2 ⟨rfl, isValid_of_make hp⟩
  · exact (parse_eq_ok_iff.1 hs).1.symm
  · have hdisplay : p.display = q.display := h.elim id display_eq_of_literal_eq
    exact display_injective (isValid_of_make hp) (isValid_of_make hq) hdisplay

/-- Two passages whose ids are made of the same letters: both are read back from their written
forms, and their literals differ. -/
theorem display_decodes_dungeon :
    make "kingdom".toList "annie_2".toList "dungeon".toList =
        .ok ⟨"kingdom".toList, "annie_2".toList, "dungeon".toList⟩ ∧
      parse "kingdom-annie_2-dungeon".toList =
        .ok ⟨"kingdom".toList, "annie_2".toList, "dungeon".toList⟩ ∧
      make "kingdom".toList "annie".toList "_2dungeon".toList ≠
        .ok ⟨"kingdom".toList, "annie".toList, "_2dungeon".toList⟩ ∧
      make "kingdoma".toList "nnie_2".toList "dungeon".toList =
        .ok ⟨"kingdoma".toList, "nnie_2".toList, "dungeon".toList⟩ ∧
      literal ⟨"kingdom".toList, "annie_2".toList, "dungeon".toList⟩ ≠
        literal ⟨"kingdoma".toList, "nnie_2".toList, "dungeon".toList⟩ := by
  have hmake : make "kingdom".toList "annie_2".toList "dungeon".toList =
      .ok ⟨"kingdom".toList, "annie_2".toList, "dungeon".toList⟩ := by
    decide
  have hmake' : make "kingdoma".toList "nnie_2".toList "dungeon".toList =
      .ok ⟨"kingdoma".toList, "nnie_2".toList, "dungeon".toList⟩ := by
    decide
  obtain ⟨_, hparse, _, hsame⟩ := display_decodes
  refine ⟨hmake, hparse _ _ _ _ hmake, by decide, hmake', fun hliteral => ?_⟩
  exact absurd (hsame _ _ _ _ _ _ _ _ hmake hmake' (.inr hliteral)) (by decide)

end PassageRef

end Fabula
