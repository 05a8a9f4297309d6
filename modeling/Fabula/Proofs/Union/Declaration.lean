import Fabula.Proofs.Union.Literals
import Fabula.Proofs.Union.Lookup

/-!
# Finding a union type

The passage maps declare one union each, and all that edits of a passage map need is known of
its right-hand side as a list of literals. This module puts the two together: a declaration
stands in a file behind a certain front, it is found there, and edits of it are edits of its
list (`UnionDeclaration.extendUnion_source`, `UnionDeclaration.shrinkUnion_source`).

A declaration is found by its keyword and the blank behind it. In front of the first declaration
that word does not occur so (`IsTypeless`), which is why the search passes over all of it,
whatever the name of the type is (`UnionDeclaration.misses_declares?`,
`UnionDeclaration.find_source`). The keyword is a short word and occurs in other words. So the
property is about the word with a blank behind it, and it is closed under putting texts together
when there is a character between them that is neither of the keyword nor a blank
(`IsTypeless.append`). With this it is seen of the lines of a file one by one.

The right-hand side ends at the first `;`. A union of literals has none
(`Union.not_mem_rightSide`), so its declaration ends where it was written to, and the rest of
the file is whatever it is.

The statements are about the tireless engine, under which a declaration is found.
-/

namespace Fabula

open scoped Engine.Tireless

/-- **A text without the keyword of a declaration**: no blank stands behind it. -/
def IsTypeless (t : Text) : Prop :=
  ∀ x c y, t = x ++ (typeWord ++ c :: y) → isBlank c = false

namespace IsTypeless

variable {s t : Text} {c : Char}

theorem of_no_blank (h : ∀ c ∈ t, isBlank c = false) : IsTypeless t := by
  rintro x c y rfl
  exact h c (by simp)

theorem of_no_word (h : 'y' ∉ t) : IsTypeless t := by
  rintro x c y rfl
  simp [typeWord] at h

/-- Two texts with a character between them that is neither of the keyword nor blank. -/
theorem append (hc : c ∉ typeWord) (hblank : isBlank c = false) (hs : IsTypeless s)
    (ht : IsTypeless t) : IsTypeless (s ++ c :: t) := by
  intro x d y heq
  rcases Text.split_occurrence hc heq with ⟨z, hz, hy⟩ | ⟨z, _, hz⟩
  · cases z with
    | nil =>
      obtain ⟨rfl, _⟩ := List.cons.inj hy
      exact hblank
    | cons e z =>
      obtain ⟨rfl, _⟩ := List.cons.inj hy
      exact hs x d z hz
  · exact ht z d y hz

theorem cons (hc : c ≠ 't') (ht : IsTypeless t) : IsTypeless (c :: t) := by
  intro x d y heq
  cases x with
  | nil => exact absurd (List.cons.inj heq).1 hc
  | cons e x =>
    obtain ⟨rfl, hrest⟩ := List.cons.inj heq
    exact ht x d y hrest

end IsTypeless

namespace UnionDeclaration

variable {typeName front rhs rest : Text}

/-- What stands between the name of a declaration and its right-hand side. -/
def equalsSign : Text :=
  " = ".toList

/-- **The source of a declaration** behind `front`. -/
def source (typeName front rhs rest : Text) : Text :=
  front ++ ' ' :: (typeWord ++ ' ' :: (typeName ++ (equalsSign ++ (rhs ++ ';' :: rest))))

/-- The declaration there, as a decomposition of the source. -/
def ofSource (typeName front rhs rest : Text) : UnionDeclaration where
  typeName
  front := front ++ ' ' :: (typeWord ++ ' ' :: (typeName ++ equalsSign))
  rhs
  rest := ';' :: rest

theorem replace_ofSource (new : Text) :
    (ofSource typeName front rhs rest).replace new = source typeName front new rest := by
  simp [replace, ofSource, source]

/-- **Nothing in front of it is one.** -/
theorem misses_declares? (hfront : IsTypeless (front ++ [' '])) (t : Text) :
    Text.Misses (declares? typeName) none (front ++ [' ']) t := by
  refine Text.misses_iff.2 fun x c y heq => ?_
  unfold declares?
  split
  · rfl
  · split
    · rename_i d ds hafter
      have hoccurs : front ++ ' ' :: t = x ++ (typeWord ++ d :: ds) := by
        have hsource := congrArg (· ++ t) heq
        rw [List.append_assoc, List.append_assoc, Text.after?_eq_some_iff.1 hafter] at hsource
        exact hsource
      have hblank : isBlank d = false := by
        rcases Text.split_occurrence (show ' ' ∉ typeWord by decide) hoccurs with
          ⟨z, hz, hds⟩ | ⟨z, hx, _⟩
        · -- the word lies in front of the blank, and so does what is behind it
          obtain ⟨e, v, hv⟩ := List.exists_cons_of_ne_nil (show z ++ [' '] ≠ [] by simp)
          have hd : d = e := by
            have hhead := congrArg List.head? hds
            rw [show z ++ ' ' :: t = (z ++ [' ']) ++ t by simp, hv] at hhead
            exact Option.some.inj hhead
          rw [hd]
          exact hfront x e v (by rw [hz, ← hv]; simp)
        · have hlength := congrArg List.length heq
          simp [hx] at hlength
      rw [hblank]
      rfl
    · rfl

/-- **A declaration is found** where its keyword first has a blank behind it. -/
theorem find_source (hfront : IsTypeless (front ++ [' ']))
    (hne : rhs ≠ []) (htrim : rhs.trim = rhs) (hend : ';' ∉ rhs) :
    find typeName (source typeName front rhs rest) = .ok (ofSource typeName front rhs rest) := by
  have hhead : IsHead typeName (typeWord ++ ' ' :: (typeName ++ equalsSign)) :=
    ⟨[' '], [' '], [' '], by decide, by decide, by decide, by decide, by simp [equalsSign]⟩
  obtain ⟨c, t, rfl⟩ := List.exists_cons_of_ne_nil hne
  have hc := Text.isBlank_of_dropWhile_eq (Text.trim_eq_self htrim).1
  refine find_eq_ok_iff.2 ⟨rfl, front ++ [' '], _, [], rest, hhead, ?_, by simp,
    by simp [ofSource], rfl, hend, htrim, ?_, by simp [source, ofSource],
    misses_declares? hfront _⟩
  · rw [List.getLast?_concat]
    decide
  · exact List.dropWhile_cons_of_neg (by simp [hc])

section Editing

open Fabula.Union

variable {literals xs ys : List Text} {l : Text}

/-- **A union of literals is found.** -/
theorem find_rightSide (hfront : IsTypeless (front ++ [' ']))
    (hls : ∀ l ∈ literals, IsLiteral l) :
    find typeName (source typeName front (rightSide literals) rest) =
      .ok (ofSource typeName front (rightSide literals) rest) :=
  find_source hfront (rightSide_ne_nil hls) (trim_rightSide hls)
    (not_mem_rightSide hls (by decide) (by decide))

/-- **A union of literals is extended** by a new one. -/
theorem extendUnion_source (hfront : IsTypeless (front ++ [' ']))
    (hls : ∀ l ∈ literals, IsLiteral l) (hl : IsLiteral l) (hnew : l ∉ literals) :
    extendUnion typeName l (source typeName front (rightSide literals) rest) =
      .ok (source typeName front (rightSide (literals ++ [l])) rest) := by
  unfold extendUnion
  rw [find_rightSide hfront hls]
  show Except.ok (if (ofSource typeName front (rightSide literals) rest).mentions l then _ else _) = _
  rw [mentions_rightSide rfl hls hl hnew, extended_rightSide rfl hls l, replace_ofSource]
  rfl

/-- **A literal is taken out** of a union of them. -/
theorem shrinkUnion_source (hfront : IsTypeless (front ++ [' ']))
    (hls : ∀ x ∈ xs ++ l :: ys, IsLiteral x) (hnew : l ∉ xs) :
    shrinkUnion typeName l (source typeName front (rightSide (xs ++ l :: ys)) rest) =
      .ok (source typeName front (rightSide (xs ++ ys)) rest) := by
  unfold shrinkUnion
  rw [find_rightSide hfront hls]
  dsimp only [bind, Except.bind]
  rw [shrunk?_rightSide rfl hls hnew]
  show Except.ok _ = _
  rw [replace_ofSource]

end Editing

end UnionDeclaration

end Fabula
