import Mathlib.Algebra.GroupWithZero.Nat
import Mathlib.Data.List.Induction
import Fabula.Proofs.Text.Pieces
import Fabula.Text.Line

/-!
# How often a text occurs

An edit that takes lines away should leave everything else as it was, and for a text in which
the same entry may stand several times, the way to say so of a certain entry is to count it.
`Text.occurrences` counts the places where a text occurs and does not continue a name: the entry
of `castle` is not found in that of `oldcastle`.

A count is useful when it can be taken apart. In general it cannot, because an occurrence may
lie across the seam of two texts. It does not lie across a character that the counted text lacks
(`Text.occurrences_append_cons`). The texts that are counted are parts of lines, so they lack
the line feed, and hence they occur in the lines of a text as often as in the whole
(`Text.IsOnLine.occurrences_join`). A removal that drops lines without the entry leaves its
count as it was, and one that puts a line feed in the place of blanks at the end of a line does
so too, because the counted texts do not end in a blank
(`Text.IsOnLine.occurrences_append_blanks`).

The character before a place is carried along, since it tells whether a name continues. Behind a
line feed no name continues, and this is why each line may be counted as if nothing stood before
it.

## Lines

The rest of the module is about the lines of two texts one behind the other. They are the lines
of both, except that the last line of the first and the first line of the second are one
(`Text.exists_split_append`). So a line of the front is the front of a line, a line stands
between line feeds or at an end of the text (`Text.exists_of_mem_split`), and what is on one
line of a text is part of the text.
-/

namespace Fabula

namespace Text

variable {w s t : Text} {previous : Option Char} {c : Char}

/-- **How often a text occurs** in another one, apart from the middle of names. -/
def occurrences (w : Text) (previous : Option Char) : Text → Nat
  | [] => 0
  | c :: t =>
    (if continuesName previous = false ∧ w <+: c :: t then 1 else 0) + occurrences w (some c) t

/-- **A text that can be counted line by line**: it has no line feed and does not end in a
blank. -/
structure IsOnLine (w : Text) : Prop where
  ne_nil : w ≠ []
  feed_not_mem : '\n' ∉ w
  getLast_ne : ∀ c, isBlank c = true → w.getLast? ≠ some c

/-- What does not hold a character begins in front of it or not at all. -/
theorem prefix_append_cons_iff (hc : c ∉ w) : w <+: s ++ c :: t ↔ w <+: s := by
  refine ⟨?_, fun h => h.trans (List.prefix_append _ _)⟩
  rintro ⟨y, hy⟩
  rcases split_occurrence (x := []) hc hy.symm with ⟨z, rfl, _⟩ | ⟨z, hz, _⟩
  · exact ⟨z, rfl⟩
  · exact absurd hz.symm (List.append_ne_nil_of_right_ne_nil _ (List.cons_ne_nil _ _))

theorem occurrences_congr {previous' : Option Char}
    (h : continuesName previous = continuesName previous') (t : Text) :
    occurrences w previous t = occurrences w previous' t := by
  cases t with
  | nil => rfl
  | cons c t => rw [occurrences, occurrences, h]

/-- **Across a character it does not hold**, a text does not occur. -/
theorem occurrences_append_cons (hne : w ≠ []) (hc : c ∉ w) :
    occurrences w previous (s ++ c :: t) =
      occurrences w previous s + occurrences w (some c) t := by
  induction s generalizing previous with
  | nil =>
    have hnot : ¬ w <+: c :: t := fun h => hne (List.prefix_nil.1
      ((prefix_append_cons_iff (s := []) hc).1 h))
    show (if continuesName previous = false ∧ w <+: c :: t then 1 else 0) + _ = 0 + _
    rw [if_neg fun h => hnot h.2]
  | cons d s ih =>
    rw [List.cons_append, occurrences, occurrences, ih, Nat.add_assoc]
    simp only [← List.cons_append, prefix_append_cons_iff hc]

/-- What is nowhere in a text does not occur there. -/
theorem occurrences_of_not_infix (h : ¬ w <:+: t) : occurrences w previous t = 0 := by
  induction t generalizing previous with
  | nil => rfl
  | cons c t ih =>
    rw [occurrences, if_neg fun hpre => h hpre.2.isInfix,
      ih fun hin => h (hin.trans (List.suffix_cons c t).isInfix)]

/-- More text holds a text no less often. -/
theorem occurrences_le_append (s t : Text) :
    occurrences w previous s ≤ occurrences w previous (s ++ t) := by
  induction s generalizing previous with
  | nil => exact Nat.zero_le _
  | cons c s ih =>
    rw [List.cons_append, occurrences, occurrences]
    refine Nat.add_le_add ?_ ih
    split
    · rename_i h
      rw [if_pos ⟨h.1, h.2.trans (List.prefix_append (c :: s) t)⟩]
    · exact Nat.zero_le _

/-- A character a text does not end in adds no place where it occurs. -/
theorem occurrences_concat (hne : w ≠ []) (hc : w.getLast? ≠ some c) :
    occurrences w previous (s ++ [c]) = occurrences w previous s := by
  have hpre : ∀ s : Text, w <+: s ++ [c] ↔ w <+: s := fun s => by
    rw [List.prefix_concat_iff]
    refine or_iff_right fun h => hc ?_
    rw [h, List.getLast?_concat]
  induction s generalizing previous with
  | nil =>
    have hnot : ¬ w <+: [c] := fun h => hne (List.prefix_nil.1 ((hpre []).1 h))
    show (if continuesName previous = false ∧ w <+: [c] then 1 else 0) + 0 = 0
    rw [if_neg fun h => hnot h.2]
  | cons d s ih =>
    rw [List.cons_append, occurrences, occurrences, ih]
    simp only [← List.cons_append, hpre]

namespace IsOnLine

variable (h : IsOnLine w)

include h in
/-- Blanks at the end hold nothing. -/
theorem occurrences_append_blanks {blanks : Text} (hb : ∀ c ∈ blanks, isBlank c = true) :
    occurrences w previous (s ++ blanks) = occurrences w previous s := by
  induction blanks using List.reverseRecOn with
  | nil => rw [List.append_nil]
  | append_singleton blanks c ih =>
    rw [← List.append_assoc, occurrences_concat h.ne_nil (h.getLast_ne c (hb c (by simp))),
      ih fun d hd => hb d (List.mem_append_left _ hd)]

include h in
/-- A line feed parts the places where a text occurs. -/
theorem occurrences_append_feed :
    occurrences w previous (s ++ '\n' :: t) =
      occurrences w previous s + occurrences w none t := by
  rw [occurrences_append_cons h.ne_nil h.feed_not_mem]
  exact congrArg _ (occurrences_congr (by decide) t)

include h in
/-- **A text is counted line by line.** -/
theorem occurrences_join (lines : List Text) :
    occurrences w none (join ['\n'] lines) = (lines.map (occurrences w none)).sum := by
  induction lines with
  | nil => rfl
  | cons line lines ih =>
    cases lines with
    | nil => rw [join_singleton, List.map_singleton, List.sum_singleton]
    | cons second lines =>
      rw [join_cons _ _ (List.cons_ne_nil _ _), List.append_assoc, List.singleton_append,
        h.occurrences_append_feed, ih]
      rfl

end IsOnLine

/-! ## Lines -/

/-- **The last line of a text**, and what stands before it. -/
theorem exists_lastLine (t : Text) : ∃ front line, '\n' ∉ line ∧ t = front ++ line ∧
    (front = [] ∨ ∃ lines, front = lines ++ ['\n']) := by
  induction t using List.reverseRecOn with
  | nil => exact ⟨[], [], List.not_mem_nil, rfl, .inl rfl⟩
  | append_singleton t c ih =>
    by_cases hc : c = '\n'
    · exact ⟨t ++ [c], [], List.not_mem_nil, by simp, .inr ⟨t, by rw [hc]⟩⟩
    · obtain ⟨front, line, hline, rfl, hfront⟩ := ih
      exact ⟨front, line ++ [c], by simp [hline, Ne.symm hc], by simp, hfront⟩

/-- Behind a line feed, or at the start, the last line is a line. -/
theorem mem_split_lastLine {front line : Text} (hfront : front = [] ∨ ∃ lines, front = lines ++ ['\n'])
    (hline : '\n' ∉ line) : line ∈ split '\n' (front ++ line) := by
  rcases hfront with rfl | ⟨lines, rfl⟩
  · rw [List.nil_append, split_of_not_mem hline]
    exact List.mem_cons_self
  · rw [List.append_assoc, List.singleton_append, split_append_cons, split_of_not_mem hline]
    exact List.mem_append_right _ List.mem_cons_self

/-- A line of a text is part of it. -/
theorem infix_of_mem_split {line : Text} (h : line ∈ split c t) : line <:+: t := by
  obtain ⟨x, y, heq⟩ := exists_of_mem_join [c] h
  rw [join_split] at heq
  exact ⟨x, y, by rw [heq, List.append_assoc]⟩

/-- **Two texts one behind the other** have the lines of both, but for the last line of the
first and the first line of the second, which are one. -/
theorem exists_split_append (c : Char) (s t : Text) : ∃ init last first rest,
    split c s = init ++ [last] ∧ split c t = first :: rest ∧
      split c (s ++ t) = init ++ (last ++ first) :: rest := by
  obtain ⟨first, rest, ht⟩ := List.exists_cons_of_ne_nil (split_ne_nil c t)
  induction s with
  | nil => exact ⟨[], [], first, rest, rfl, ht, ht⟩
  | cons d s ih =>
    obtain ⟨init, last, _, _, hs, ht', hst⟩ := ih
    obtain ⟨rfl, rfl⟩ := List.cons.inj (ht.symm.trans ht')
    by_cases hd : d = c
    · subst hd
      exact ⟨[] :: init, last, first, rest, by rw [split_cons_self, hs]; rfl, ht,
        by rw [List.cons_append, split_cons_self, hst]; rfl⟩
    · cases init with
      | nil =>
        exact ⟨[], d :: last, first, rest, split_cons_of_ne hd hs, ht, split_cons_of_ne hd hst⟩
      | cons line init =>
        exact ⟨(d :: line) :: init, last, first, rest, split_cons_of_ne hd hs, ht,
          split_cons_of_ne hd hst⟩

/-- **A line of the front of a text** is the front of a line. -/
theorem exists_mem_split_append {line : Text} (t : Text) (h : line ∈ split c s) :
    ∃ line' ∈ split c (s ++ t), line <+: line' := by
  obtain ⟨init, last, first, rest, hs, _, hst⟩ := exists_split_append c s t
  rw [hs, List.mem_append, List.mem_singleton] at h
  rcases h with h | rfl
  · exact ⟨line, by rw [hst]; exact List.mem_append_left _ h, List.prefix_rfl⟩
  · exact ⟨line ++ first, by rw [hst]; simp, List.prefix_append _ _⟩

/-- A text on a line of another one is on one of its lines. -/
theorem exists_mem_split_of_infix (hne : w ≠ []) (hc : c ∉ w) (h : w <:+: t) :
    ∃ line ∈ split c t, w <:+: line := by
  rw [← join_split c t] at h
  exact (infix_join_iff hne hc).1 h

/-- **Where a line stands**: it begins at the start or behind a separator, and ends at the end
or in front of one. -/
theorem exists_of_mem_split {line : Text} (h : line ∈ split c t) : ∃ front back,
    t = front ++ (line ++ back) ∧ (front = [] ∨ ∃ lines, front = lines ++ [c]) ∧
      (back = [] ∨ ∃ lines, back = c :: lines) := by
  rw [← join_split c t]
  generalize split c t = lines at h ⊢
  induction lines with
  | nil => exact absurd h List.not_mem_nil
  | cons first lines ih =>
    by_cases hnil : lines = []
    · subst hnil
      obtain rfl := List.mem_singleton.1 h
      exact ⟨[], [], by simp, .inl rfl, .inl rfl⟩
    · rw [join_cons _ _ hnil, List.append_assoc, List.singleton_append]
      rcases List.mem_cons.1 h with rfl | h
      · exact ⟨[], c :: join [c] lines, rfl, .inl rfl, .inr ⟨_, rfl⟩⟩
      · obtain ⟨front, back, heq, hfront, hback⟩ := ih h
        refine ⟨first ++ c :: front, back, by rw [heq]; simp, .inr ?_, hback⟩
        rcases hfront with rfl | ⟨front, rfl⟩
        · exact ⟨first, rfl⟩
        · exact ⟨first ++ c :: front, by simp⟩

/-- Two texts that are put together line by line share a line in the middle. -/
theorem join_append_append (c : Char) (init rest : List Text) (last first : Text) :
    join [c] (init ++ (last ++ first) :: rest) =
      join [c] (init ++ [last]) ++ join [c] (first :: rest) := by
  induction init with
  | nil =>
    cases rest with
    | nil => simp
    | cons second rest =>
      rw [List.nil_append, List.nil_append, join_singleton, join_cons _ _ (List.cons_ne_nil _ _),
        join_cons _ _ (List.cons_ne_nil _ _)]
      simp
  | cons line init ih =>
    rw [List.cons_append, List.cons_append, join_cons _ _ (by simp), join_cons _ _ (by simp), ih]
    simp

/-- The last line ends the text. -/
theorem suffix_of_split_eq {init : List Text} {last : Text} (h : split c t = init ++ [last]) :
    last <:+ t := by
  rw [← join_split c t, h]
  cases init with
  | nil => simp only [List.nil_append, join_singleton, List.suffix_rfl]
  | cons line init =>
    rw [join_append c (List.cons_ne_nil _ _) (List.cons_ne_nil _ _), join_singleton]
    exact ⟨join [c] (line :: init) ++ [c], by simp⟩

/-- The first line begins the text. -/
theorem prefix_of_split_eq {first : Text} {rest : List Text} (h : split c t = first :: rest) :
    first <+: t := by
  rw [← join_split c t, h]
  cases rest with
  | nil => simp only [join_singleton, List.prefix_rfl]
  | cons line rest =>
    rw [join_cons _ _ (List.cons_ne_nil _ _), List.append_assoc]
    exact List.prefix_append _ _

end Text

end Fabula
