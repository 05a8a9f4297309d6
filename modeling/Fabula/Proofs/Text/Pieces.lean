import Fabula.Proofs.Text.Scan
import Fabula.Text.Basic

/-!
# Taking a text to pieces and putting it together

A path is a text with its segments between slashes, a file is a text with its lines between line
feeds, a union has its alternatives between bars. `Text.split` cuts a text at a separator,
`Text.join` puts pieces together with the separator between them, and what a path or a line is
taken to be rests on these being inverse to each other. So the laws are stated for any
separator.

They are inverse on different grounds in the two directions. Putting the pieces of a text
together always gives the text back (`Text.join_split`), because there is always a piece, be it
an empty one: a text with a separator at its end has an empty piece behind it, and that piece
puts the separator back. Cutting gives the pieces back if there is one and none holds the
separator (`Text.split_join`). Both conditions are needed. No pieces at all are put together to
the empty text, of which there is one piece, and a piece with a separator is cut.

## What is in the pieces

What is said of a text is then said of its pieces. A piece is a part of the text, it is no
longer than the text, and it holds no separator. A character that neither the separator nor a
piece holds is not in the text. And a text that does not hold the separator occurs in one of the
pieces if it occurs at all (`Text.infix_join_iff`), since an occurrence cannot reach across a
character it lacks; the empty text is excepted, which occurs in no pieces when there are none.
-/

namespace Fabula

namespace Text

variable {sep : Char}

/-- There is always a piece. -/
theorem split_ne_nil (sep : Char) (t : Text) : split sep t ≠ [] := by
  cases t with
  | nil => simp [split]
  | cons c cs =>
    rw [split]
    split
    · simp
    · split <;> simp

@[simp] theorem split_nil (sep : Char) : split sep [] = [[]] := rfl

@[simp] theorem split_cons_self (sep : Char) (t : Text) :
    split sep (sep :: t) = [] :: split sep t := by
  rw [split, if_pos rfl]

/-- A character that is no separator goes to the front of the first piece. -/
theorem split_cons_of_ne {c : Char} (h : c ≠ sep) {t : Text} {piece : Text}
    {pieces : List Text} (ht : split sep t = piece :: pieces) :
    split sep (c :: t) = (c :: piece) :: pieces := by
  rw [split, if_neg h, ht]

/-- A separator is where two texts split apart. -/
theorem split_append_cons (s t : Text) :
    split sep (s ++ sep :: t) = split sep s ++ split sep t := by
  induction s with
  | nil => simp
  | cons c cs ih =>
    by_cases h : c = sep
    · subst h
      rw [List.cons_append, split_cons_self, split_cons_self, ih, List.cons_append]
    · obtain ⟨piece, pieces, hp⟩ := List.exists_cons_of_ne_nil (split_ne_nil sep cs)
      rw [List.cons_append, split_cons_of_ne h (by rw [ih, hp, List.cons_append]),
        split_cons_of_ne h hp, List.cons_append]

/-- A text without a separator is one piece. -/
theorem split_of_not_mem {t : Text} (h : sep ∉ t) : split sep t = [t] := by
  induction t with
  | nil => rfl
  | cons c cs ih =>
    rw [List.mem_cons, not_or] at h
    exact split_cons_of_ne (Ne.symm h.1) (ih h.2)

/-- No piece contains the separator. -/
theorem not_mem_of_mem_split {t piece : Text} (h : piece ∈ split sep t) : sep ∉ piece := by
  induction t generalizing piece with
  | nil => simp_all
  | cons c cs ih =>
    by_cases hc : c = sep
    · subst hc
      rw [split_cons_self, List.mem_cons] at h
      rcases h with rfl | h
      · exact List.not_mem_nil
      · exact ih h
    · obtain ⟨first, pieces, hp⟩ := List.exists_cons_of_ne_nil (split_ne_nil sep cs)
      rw [split_cons_of_ne hc hp, List.mem_cons] at h
      rw [hp] at ih
      rcases h with rfl | h
      · rw [List.mem_cons, not_or]
        exact ⟨Ne.symm hc, ih List.mem_cons_self⟩
      · exact ih (List.mem_cons_of_mem _ h)

/-- No piece is longer than the text. -/
theorem length_le_of_mem_split {t piece : Text} (h : piece ∈ split sep t) :
    piece.length ≤ t.length := by
  induction t generalizing piece with
  | nil => simp_all
  | cons c cs ih =>
    obtain ⟨first, pieces, hp⟩ := List.exists_cons_of_ne_nil (split_ne_nil sep cs)
    by_cases hc : c = sep
    · subst hc
      rw [split_cons_self, List.mem_cons] at h
      rcases h with rfl | h
      · exact Nat.zero_le _
      · exact Nat.le_succ_of_le (ih h)
    · rw [split_cons_of_ne hc hp, List.mem_cons] at h
      rw [hp] at ih
      rcases h with rfl | h
      · exact Nat.succ_le_succ (ih List.mem_cons_self)
      · exact Nat.le_succ_of_le (ih (List.mem_cons_of_mem _ h))

@[simp] theorem join_nil (sep : Text) : join sep [] = [] := List.intercalate_nil

@[simp] theorem join_singleton (sep t : Text) : join sep [t] = t := List.intercalate_singleton

/-- The first piece stands before the first separator. -/
theorem join_cons {pieces : List Text} (sep first : Text) (h : pieces ≠ []) :
    join sep (first :: pieces) = first ++ sep ++ join sep pieces := by
  obtain ⟨second, rest, rfl⟩ := List.exists_cons_of_ne_nil h
  exact List.intercalate_cons_cons

/-- Putting the pieces together gives the text back. -/
@[simp] theorem join_split (sep : Char) (t : Text) : join [sep] (split sep t) = t := by
  induction t with
  | nil => simp
  | cons c cs ih =>
    by_cases h : c = sep
    · subst h
      rw [split_cons_self, join_cons _ _ (split_ne_nil c cs), ih]
      rfl
    · obtain ⟨piece, pieces, hp⟩ := List.exists_cons_of_ne_nil (split_ne_nil sep cs)
      rw [split_cons_of_ne h hp]
      rw [hp] at ih
      cases pieces with
      | nil => simpa using ih
      | cons second rest =>
        rw [join_cons _ _ (List.cons_ne_nil _ _)] at ih ⊢
        rw [← ih]
        rfl

/-- Pieces without the separator are found again. -/
theorem split_join {pieces : List Text} (hne : pieces ≠ []) (h : ∀ p ∈ pieces, sep ∉ p) :
    split sep (join [sep] pieces) = pieces := by
  induction pieces with
  | nil => exact absurd rfl hne
  | cons first rest ih =>
    have hfirst := split_of_not_mem (h first List.mem_cons_self)
    by_cases hr : rest = []
    · rw [hr, join_singleton, hfirst]
    · rw [join_cons _ _ hr, List.append_assoc, List.singleton_append, split_append_cons, hfirst,
        ih hr fun p hp => h p (List.mem_cons_of_mem _ hp), List.singleton_append]

/-- A piece is part of what the pieces are put together to. -/
theorem exists_of_mem_join {pieces : List Text} {piece : Text} (sep : Text) (h : piece ∈ pieces) :
    ∃ x y, join sep pieces = x ++ (piece ++ y) := by
  induction pieces with
  | nil => exact absurd h List.not_mem_nil
  | cons first rest ih =>
    by_cases hr : rest = []
    · subst hr
      obtain rfl := List.mem_singleton.1 h
      exact ⟨[], [], by simp⟩
    · rw [join_cons _ _ hr, List.append_assoc]
      rcases List.mem_cons.1 h with rfl | h
      · exact ⟨[], sep ++ join sep rest, rfl⟩
      · obtain ⟨x, y, heq⟩ := ih h
        exact ⟨first ++ (sep ++ x), y, by rw [heq]; simp only [List.append_assoc]⟩

/-- What neither the separator nor a piece holds, the pieces do not hold together. -/
theorem not_mem_join {pieces : List Text} {sep : Text} {c : Char} (hsep : c ∉ sep)
    (h : ∀ p ∈ pieces, c ∉ p) : c ∉ join sep pieces := by
  induction pieces with
  | nil => simp
  | cons first rest ih =>
    obtain ⟨hfirst, hrest⟩ := List.forall_mem_cons.1 h
    by_cases hr : rest = []
    · rwa [hr, join_singleton]
    · rw [join_cons _ _ hr]
      simp [hfirst, hsep, ih hrest]

/-- **What has no separator occurs in one of the pieces.** -/
theorem infix_join_iff {w : Text} {c : Char} {pieces : List Text} (hne : w ≠ []) (hc : c ∉ w) :
    w <:+: join [c] pieces ↔ ∃ p ∈ pieces, w <:+: p := by
  constructor
  · intro h
    induction pieces with
    | nil => exact absurd (List.infix_nil.1 h) hne
    | cons p rest ih =>
      by_cases hnil : rest = []
      · rw [hnil, join_singleton] at h
        exact ⟨p, List.mem_cons_self, h⟩
      · rw [join_cons _ _ hnil, List.append_assoc, List.singleton_append] at h
        obtain ⟨x, y, heq⟩ := h
        rw [List.append_assoc] at heq
        rcases split_occurrence hc heq.symm with ⟨z, hz, _⟩ | ⟨z, _, hz⟩
        · exact ⟨p, List.mem_cons_self, x, z, by rw [hz]; simp⟩
        · obtain ⟨q, hq, hinfix⟩ := ih ⟨z, y, by rw [hz]; simp⟩
          exact ⟨q, List.mem_cons_of_mem p hq, hinfix⟩
  · rintro ⟨p, hp, hinfix⟩
    obtain ⟨x, y, heq⟩ := exists_of_mem_join [c] hp
    rw [heq]
    exact hinfix.trans ⟨x, y, by simp⟩
/-- Two lists of pieces are put together with a separator between them. -/
theorem join_append {pieces rest : List Text} (c : Char) (hp : pieces ≠ []) (hr : rest ≠ []) :
    join [c] (pieces ++ rest) = join [c] pieces ++ c :: join [c] rest := by
  induction pieces with
  | nil => exact absurd rfl hp
  | cons first others ih =>
    by_cases ho : others = []
    · subst ho
      rw [List.singleton_append, join_cons _ _ hr, join_singleton, List.append_assoc]
      rfl
    · rw [List.cons_append, join_cons _ _ (List.append_ne_nil_of_left_ne_nil ho _), ih ho,
        join_cons _ _ ho]
      simp

end Text

end Fabula
