import Fabula.Proofs.Text.Scan

/-!
# Trimming

Trimming takes away the blanks at the two ends of a text and nothing else. It is computed from
the left and then, turned round, from the right, and a proof that has to follow these two passes
learns more than it needs. So the definition is opened a few times here, and the rest rests on
two facts.

The first says what is taken away: a text is its trimmed form with blanks on both sides
(`Text.exists_trim`). The second says what cannot be taken away: a text that neither begins nor
ends with a blank is trimmed (`Text.trim_of_ends`). Together they determine the trimmed form,
since blanks at the end split a text in one way only (`Text.append_blanks_inj`). That trimming
once is enough, that blanks around a text are trimmed with its own (`Text.trim_between`), and
that a text of blanks leaves nothing, follow from them.

## Occurrences

Whether a union holds a variant is decided on the trimmed text, while the alternatives are cut
out of the one that is not trimmed. Trimming must not hide an occurrence then, and it does not
hide that of a trimmed text (`Text.infix_trim_iff`): if an occurrence reached into the blanks
that are taken away, one of its ends would be among them, and a trimmed text does not end or
begin with a blank. For other texts it is not so. The text `a` and a blank behind it occurs in
itself, and not in what trimming leaves of it.
-/

namespace Fabula

namespace Text

/-- A text that keeps its beginning under trimming does not begin with a blank. -/
theorem isBlank_of_dropWhile_eq {c : Char} {t : Text} (h : (c :: t).dropWhile isBlank = c :: t) :
    isBlank c = false := by
  by_contra hc
  rw [List.dropWhile_cons_of_pos (by simpa using hc)] at h
  have hlen := (List.dropWhile_suffix (p := isBlank) (l := t)).length_le
  rw [h, List.length_cons] at hlen
  omega

/-- A trimmed text is trimmed on either side. -/
theorem trim_eq_self {t : Text} (h : trim t = t) : trimLeft t = t ∧ trimRight t = t := by
  have hleft : trimLeft t = t := by
    refine List.IsSuffix.eq_of_length_le (List.dropWhile_suffix _) ?_
    have hlen : (trimRight (trimLeft t)).length ≤ (trimLeft t).length := by
      unfold trimRight
      rw [List.length_reverse]
      exact (List.dropWhile_suffix _).length_le.trans (le_of_eq List.length_reverse)
    rwa [show trimRight (trimLeft t) = t from h] at hlen
  refine ⟨hleft, ?_⟩
  unfold trim at h
  rwa [hleft] at h

/-- A trimmed text ends in a character that is not blank. -/
theorem isBlank_of_getLast? {t : Text} {c : Char} (h : trim t = t) (hc : t.getLast? = some c) :
    isBlank c = false := by
  obtain ⟨front, rfl⟩ := List.getLast?_eq_some_iff.1 hc
  have hright := congrArg List.reverse (trim_eq_self h).2
  unfold trimRight at hright
  rw [List.reverse_reverse, List.reverse_append, List.reverse_singleton, List.singleton_append]
    at hright
  exact isBlank_of_dropWhile_eq hright

/-- A text whose end is not blank keeps it. -/
theorem trimRight_eq_self {t : Text} {c : Char} (h : t.getLast? = some c) (hc : isBlank c = false) :
    trimRight t = t := by
  obtain ⟨front, rfl⟩ := List.getLast?_eq_some_iff.1 h
  unfold trimRight
  rw [List.reverse_append, List.reverse_singleton, List.singleton_append,
    List.dropWhile_cons_of_neg (by simp [hc]), List.reverse_cons, List.reverse_reverse]

/-- A text that neither begins nor ends with a blank is trimmed. -/
theorem trim_of_ends {t : Text} {c d : Char} (hc : t.head? = some c) (hcb : isBlank c = false)
    (hd : t.getLast? = some d) (hdb : isBlank d = false) : trim t = t := by
  obtain ⟨front, rfl⟩ := List.getLast?_eq_some_iff.1 hd
  have hleft : trimLeft (front ++ [d]) = front ++ [d] := by
    obtain ⟨rest, hrest⟩ := List.head?_eq_some_iff.1 hc
    rw [hrest]
    exact List.dropWhile_cons_of_neg (by simp [hcb])
  unfold trim
  rw [hleft, trimRight_eq_self (by simp) hdb]

/-- **Trimming** takes away the blanks around a trimmed text. -/
theorem trim_blanks {before t behind : Text} (hne : t ≠ []) (ht : trim t = t)
    (hbefore : ∀ c ∈ before, isBlank c = true) (hbehind : ∀ c ∈ behind, isBlank c = true) :
    trim (before ++ (t ++ behind)) = t := by
  obtain ⟨hleft, hright⟩ := trim_eq_self ht
  obtain ⟨c, cs, rfl⟩ := List.exists_cons_of_ne_nil hne
  unfold trim
  rw [show trimLeft (before ++ (c :: cs ++ behind)) = c :: cs ++ behind from
    dropWhile_blanks _ hbefore (isBlank_of_dropWhile_eq hleft)]
  unfold trimRight at hright ⊢
  rw [List.reverse_append, List.dropWhile_append_of_pos (by simpa using hbehind)]
  exact hright

/-! ## What trimming leaves -/

/-- What is taken off the end is blank. -/
theorem exists_trimRight (t : Text) :
    ∃ behind, (∀ c ∈ behind, isBlank c = true) ∧ t = trimRight t ++ behind := by
  refine ⟨(t.reverse.takeWhile isBlank).reverse, fun c hc => ?_, ?_⟩
  · exact List.mem_takeWhile_imp (List.mem_reverse.1 hc)
  · unfold trimRight
    rw [← List.reverse_append, List.takeWhile_append_dropWhile, List.reverse_reverse]

/-- Blanks at the end are trimmed. -/
theorem trimRight_append {t behind : Text} (h : ∀ c ∈ behind, isBlank c = true) :
    trimRight (t ++ behind) = trimRight t := by
  unfold trimRight
  rw [List.reverse_append, List.dropWhile_append_of_pos (by simpa using h)]

/-- Blanks at the end split a text in one way. -/
theorem append_blanks_inj {s t before behind : Text} {c d : Char} (hs : s.getLast? = some c)
    (hc : isBlank c = false) (ht : t.getLast? = some d) (hd : isBlank d = false)
    (hbefore : ∀ c ∈ before, isBlank c = true) (hbehind : ∀ c ∈ behind, isBlank c = true)
    (h : s ++ before = t ++ behind) : s = t := by
  have htrim := congrArg trimRight h
  rwa [trimRight_append hbefore, trimRight_append hbehind, trimRight_eq_self hs hc,
    trimRight_eq_self ht hd] at htrim

/-- **What is taken off the two ends is blank.** -/
theorem exists_trim (t : Text) :
    ∃ before behind, (∀ c ∈ before, isBlank c = true) ∧ (∀ c ∈ behind, isBlank c = true) ∧
      t = before ++ (trim t ++ behind) := by
  obtain ⟨before, hbefore, ht⟩ := eq_blanks_append t
  obtain ⟨behind, hbehind, ht'⟩ := exists_trimRight (trimLeft t)
  refine ⟨before, behind, hbefore, hbehind, ?_⟩
  unfold trim
  rw [← ht', trimLeft, ← ht]

/-- What is left at the end is not blank. -/
theorem isBlank_getLast?_trimRight {t : Text} {c : Char} (h : (trimRight t).getLast? = some c) :
    isBlank c = false := by
  unfold trimRight at h
  rw [List.getLast?_reverse] at h
  have hdrop := List.head?_dropWhile_not isBlank t.reverse
  rw [h] at hdrop
  simpa using hdrop

theorem trim_sublist (t : Text) : (trim t).Sublist t := by
  obtain ⟨before, behind, _, _, ht⟩ := exists_trim t
  conv_rhs => rw [ht]
  exact (List.sublist_append_left _ _).trans (List.sublist_append_right _ _)

/-- Trimming takes no character away that is not blank. -/
theorem mem_trim_iff {t : Text} {c : Char} (hc : isBlank c = false) : c ∈ trim t ↔ c ∈ t := by
  obtain ⟨before, behind, hbefore, hbehind, ht⟩ := exists_trim t
  have hfirst := not_mem_of_blank hbefore hc
  have hlast := not_mem_of_blank hbehind hc
  conv_rhs => rw [ht]
  simp [hfirst, hlast]

/-- A text that does not begin with a blank is trimmed by trimming its end. -/
theorem trim_trimRight {t : Text} (h : trimLeft t = t) : trim (trimRight t) = trimRight t := by
  rcases List.eq_nil_or_concat (trimRight t) with hnil | ⟨front, d, hd⟩
  · rw [hnil]
    rfl
  · obtain ⟨behind, _, ht⟩ := exists_trimRight t
    obtain ⟨c, cs, hc⟩ := List.exists_cons_of_ne_nil (show trimRight t ≠ [] by rw [hd]; simp)
    have hlast : (trimRight t).getLast? = some d := by
      rw [hd]
      simp
    refine trim_of_ends (c := c) (d := d) (by rw [hc]; rfl) ?_ hlast (isBlank_getLast?_trimRight hlast)
    rw [hc] at ht
    rw [ht] at h
    exact isBlank_of_dropWhile_eq h

/-- A trimmed text does not begin with a blank. -/
theorem trimLeft_trimLeft (t : Text) : trimLeft (trimLeft t) = trimLeft t := by
  unfold trimLeft
  rw [List.dropWhile_eq_self_iff]
  intro hpos
  have hdrop := List.head?_dropWhile_not isBlank t
  rw [List.head?_eq_getElem?, List.getElem?_eq_getElem hpos] at hdrop
  rw [hdrop]
  exact Bool.false_ne_true

/-- **Trimming once is enough.** -/
@[simp] theorem trim_trim (t : Text) : trim (trim t) = trim t :=
  trim_trimRight (trimLeft_trimLeft t)

/-- Nothing but blanks leaves nothing. -/
theorem trim_eq_nil_of_blank {t : Text} (h : ∀ c ∈ t, isBlank c = true) : trim t = [] := by
  unfold trim trimLeft
  rw [List.dropWhile_eq_nil_iff.2 h]
  rfl

/-- A text that leaves nothing is nothing but blanks. -/
theorem isBlank_of_trim_eq_nil {t : Text} (h : trim t = []) : ∀ c ∈ t, isBlank c = true := by
  obtain ⟨before, behind, hbefore, hbehind, heq⟩ := exists_trim t
  rw [h, List.nil_append] at heq
  rw [heq]
  exact List.forall_mem_append.2 ⟨hbefore, hbehind⟩

/-- **Blanks around a text are trimmed with its own.** -/
theorem trim_between {before t behind : Text} (hbefore : ∀ c ∈ before, isBlank c = true)
    (hbehind : ∀ c ∈ behind, isBlank c = true) : trim (before ++ (t ++ behind)) = trim t := by
  obtain ⟨front, back, hfront, hback, ht⟩ := exists_trim t
  have hsplit : before ++ (t ++ behind) = before ++ front ++ (trim t ++ (back ++ behind)) := by
    conv_lhs => rw [ht]
    simp
  have hfirst : ∀ c ∈ before ++ front, isBlank c = true := List.forall_mem_append.2 ⟨hbefore, hfront⟩
  have hlast : ∀ c ∈ back ++ behind, isBlank c = true := List.forall_mem_append.2 ⟨hback, hbehind⟩
  rw [hsplit]
  by_cases hne : trim t = []
  · rw [hne, List.nil_append]
    exact trim_eq_nil_of_blank (List.forall_mem_append.2 ⟨hfirst, hlast⟩)
  · exact trim_blanks hne (trim_trim t) hfirst hlast

/-- **Trimming does not hide a trimmed text.** -/
theorem infix_trim_iff {w t : Text} (hw : w.trim = w) : w <:+: t.trim ↔ w <:+: t := by
  obtain ⟨before, behind, hbefore, hbehind, ht⟩ := exists_trim t
  constructor
  · intro h
    rw [ht]
    exact h.trans ⟨before, behind, by simp⟩
  · rintro ⟨x, y, heq⟩
    rcases List.eq_nil_or_concat w with rfl | ⟨front, d, hd⟩
    · exact List.nil_infix
    · have hlast : isBlank d = false := isBlank_of_getLast? hw (by rw [hd]; simp)
      obtain ⟨c, cs, hc⟩ := List.exists_cons_of_ne_nil (show w ≠ [] by rw [hd]; simp)
      have hfirst : isBlank c = false := isBlank_of_dropWhile_eq (hc ▸ (trim_eq_self hw).1)
      -- neither end of an occurrence is among the blanks
      have hleft : before ++ (t.trim ++ behind) = x ++ c :: (cs ++ y) := by
        rw [← ht, ← heq, hc]
        simp
      obtain ⟨z, rfl, hz⟩ := behind_blanks hbefore hfirst hleft
      have hright : t.trim ++ behind = (z ++ front) ++ d :: y := by
        rw [hz, ← List.cons_append, ← hc, hd]
        simp
      obtain ⟨u, hu⟩ := in_front_of (not_mem_of_blank hbehind hlast) hright
      exact ⟨z, u, by rw [hu, hd]; simp⟩

/-- What a text ends in, for one character. -/
theorem endsWith_singleton_iff {t : Text} {c : Char} : endsWith t [c] = true ↔ t.getLast? = some c := by
  unfold endsWith
  rw [Option.isSome_iff_exists, List.getLast?_eq_some_iff]
  constructor
  · rintro ⟨r, hr⟩
    rw [after?_eq_some_iff] at hr
    exact ⟨r.reverse, by rw [← List.reverse_reverse t, hr]; simp⟩
  · rintro ⟨front, rfl⟩
    exact ⟨front.reverse, after?_eq_some_iff.2 (by simp)⟩

end Text

end Fabula
