import Fabula.Proofs.Text.Trim
import Fabula.Union.Never

/-!
# Where the placeholder stands

`never` is a placeholder only where it stands alone, between two characters that do not touch it
or at an end of the text (`Union.HoldsNever`). Dropping it works through two patterns, one for
the word with a bar beside it and one for the word by itself. Both match only where it stands
alone. Before it is asked what they leave, this module says where they have nothing to do.

A text in which the placeholder does not stand is only trimmed (`Union.stripped_eq_trim`).
Neither pattern matches in it: a match of either has the word in it, alone, and bars and blanks
do not touch the word, so the one that was matched stands in the text
(`Union.holdsNever_of_joinedNever?`).

Whether the placeholder stands in a text is decided piece by piece. At a character that does not
touch it, such as a blank or a bar, a text can be cut in two, and it stands on one of the two
sides (`Union.holdsNever_append_cons`). Hence blanks around a text neither bring nor hide it,
and a union holds it if and only if one of its alternatives does.

Nothing is brought in by dropping it: what is left is the text without some of its characters,
in the same order (`Union.stripped_sublist`).
-/

namespace Fabula

namespace Union

/-- **The placeholder stands in a text**: the word, between two characters that do not
touch it, or an end of the text. -/
def HoldsNever (t : Text) : Prop :=
  ∃ x y, t = x ++ (neverWord ++ y) ∧ x.getLast?.any touchesNever = false ∧
    y.head?.any touchesNever = false

variable {t : Text} {c : Char}

theorem never?_eq_some_iff {previous : Option Char} {rest : Text} :
    never? previous t = some rest ↔ previous.any touchesNever = false ∧
      t = neverWord ++ rest ∧ rest.head?.any touchesNever = false := by
  unfold never?
  constructor
  · intro h
    split at h
    · cases h
    · rename_i hprevious
      split at h
      · rename_i r hr
        split at h
        · cases h
        · rename_i hrest
          obtain rfl := Option.some.inj h
          exact ⟨Bool.eq_false_iff.2 hprevious, Text.after?_eq_some_iff.1 hr,
            Bool.eq_false_iff.2 hrest⟩
      · cases h
  · rintro ⟨hprevious, rfl, hrest⟩
    rw [hprevious, Text.after?_append]
    simp [hrest]

/-- What a search for the placeholder finds. -/
theorem hasNever_iff : hasNever t = true ↔ HoldsNever t := by
  unfold hasNever
  constructor
  · intro h
    obtain ⟨⟨front, rest⟩, hsearch⟩ := Option.isSome_iff_exists.1 h
    obtain ⟨behind, ht, hm, _⟩ := Text.search?_eq_some_iff.1 hsearch
    rw [Text.lastOr_none] at hm
    obtain ⟨hprevious, rfl, hrest⟩ := never?_eq_some_iff.1 hm
    exact ⟨front, rest, ht, hprevious, hrest⟩
  · rintro ⟨x, y, rfl, hx, hy⟩
    rw [Option.isSome_iff_ne_none, Ne, Text.search?_eq_none_iff, Text.misses_iff]
    rintro ⟨h, _⟩
    have hmiss := h x 'n' ("ever".toList ++ y) rfl
    rw [Text.lastOr_none, List.append_nil] at hmiss
    exact absurd hmiss (Option.ne_none_iff_exists'.2 ⟨y, never?_eq_some_iff.2 ⟨hx, rfl, hy⟩⟩)

instance (t : Text) : Decidable (HoldsNever t) :=
  decidable_of_iff _ hasNever_iff

/-- No blank touches the placeholder. -/
theorem touchesNever_of_isBlank (h : isBlank c = true) : touchesNever c = false := by
  have hname : isNameChar c = false := by
    by_contra hc
    rw [Text.isBlank_of_isNameChar (Bool.not_eq_false _ ▸ hc)] at h
    cases h
  have hmark : ∀ d : Char, isBlank d = false → (c == d) = false :=
    fun d hd => beq_eq_false_iff_ne.2 (Text.ne_of_isBlank h hd)
  unfold touchesNever
  rw [hname, hmark '\'' (by decide), hmark '"' (by decide), hmark '\x60' (by decide),
    hmark '-' (by decide)]
  rfl

/-- The characters of the word touch it. -/
theorem not_mem_neverWord (hc : touchesNever c = false) : c ∉ neverWord := by
  have hall : ∀ d ∈ neverWord, touchesNever d = true := by decide
  intro hmem
  rw [hall c hmem] at hc
  cases hc

/-- What does not touch the placeholder in front of a text does not at its end. -/
theorem touches_of_lastOr {previous : Option Char} {x : Text}
    (h : (Text.lastOr previous x).any touchesNever = false) : x.getLast?.any touchesNever = false := by
  cases hx : x.getLast? with
  | none => rfl
  | some d =>
    rw [Text.lastOr, hx] at h
    exact h

/-- **What does not touch the placeholder has it on one side.** -/
theorem holdsNever_append_cons {s : Text} (hc : touchesNever c = false) :
    HoldsNever (s ++ c :: t) ↔ HoldsNever s ∨ HoldsNever t := by
  have hword := not_mem_neverWord hc
  constructor
  · rintro ⟨x, y, heq, hx, hy⟩
    rcases Text.split_occurrence hword heq with ⟨z, rfl, rfl⟩ | ⟨z, rfl, rfl⟩
    · refine .inl ⟨x, z, rfl, hx, ?_⟩
      cases z with
      | nil => rfl
      | cons d z => exact hy
    · refine .inr ⟨z, y, rfl, ?_, hy⟩
      rw [List.getLast?_append_cons, ← Text.lastOr_none, Text.lastOr_cons] at hx
      exact touches_of_lastOr hx
  · rintro (⟨x, y, rfl, hx, hy⟩ | ⟨x, y, rfl, hx, hy⟩)
    · refine ⟨x, y ++ c :: t, by simp, hx, ?_⟩
      cases y with
      | nil => exact hc
      | cons d y => exact hy
    · refine ⟨s ++ c :: x, y, by simp, ?_, hy⟩
      rw [List.getLast?_append_cons, List.getLast?_cons]
      cases hlast : x.getLast? with
      | none => exact hc
      | some d =>
        rw [hlast] at hx
        exact hx

/-- Blanks around a text neither bring the placeholder nor hide it. -/
theorem holdsNever_between {before behind : Text} (hbefore : ∀ c ∈ before, isBlank c = true)
    (hbehind : ∀ c ∈ behind, isBlank c = true) :
    HoldsNever (before ++ (t ++ behind)) ↔ HoldsNever t := by
  have hnil : ¬HoldsNever [] := by decide
  induction before with
  | nil =>
    rw [List.nil_append]
    induction behind generalizing t with
    | nil => rw [List.append_nil]
    | cons c behind ih =>
      obtain ⟨hc, hbehind⟩ := List.forall_mem_cons.1 hbehind
      have hrest : ¬HoldsNever behind := fun h => hnil ((ih hbehind).1 h)
      exact (holdsNever_append_cons (touchesNever_of_isBlank hc)).trans (or_iff_left hrest)
  | cons c before ih =>
    obtain ⟨hc, hbefore⟩ := List.forall_mem_cons.1 hbefore
    have hsplit := holdsNever_append_cons (s := []) (t := before ++ (t ++ behind))
      (touchesNever_of_isBlank hc)
    exact (hsplit.trans (or_iff_right hnil)).trans (ih hbefore)

theorem not_holdsNever_of_blank (h : ∀ c ∈ t, isBlank c = true) : ¬HoldsNever t := by
  have hnil : ¬HoldsNever [] := by decide
  have hbetween := holdsNever_between (t := []) h (List.forall_mem_nil _)
  rw [List.nil_append, List.append_nil] at hbetween
  exact fun hholds => hnil (hbetween.1 hholds)

@[simp] theorem holdsNever_trim : HoldsNever t.trim ↔ HoldsNever t := by
  obtain ⟨before, behind, hbefore, hbehind, ht⟩ := Text.exists_trim t
  conv_rhs => rw [ht]
  exact (holdsNever_between hbefore hbehind).symm

/-- What follows a bar, with the blanks around it. -/
theorem pipe?_eq_some {rest : Text} (h : pipe? t = some rest) :
    ∃ before behind, (∀ c ∈ behind, isBlank c = true) ∧ t = before ++ '|' :: (behind ++ rest) := by
  unfold pipe? at h
  split at h
  · rename_i r hr
    obtain ⟨before, _, hbefore⟩ := Text.eq_blanks_append t
    obtain ⟨behind, hbehind, hr'⟩ := Text.eq_blanks_append r
    obtain rfl := Option.some.inj h
    refine ⟨before, behind, hbehind, ?_⟩
    rw [← hr', ← hr, ← hbefore]
  · cases h

/-- **A placeholder beside a bar is one.** -/
theorem holdsNever_of_joinedNever? {previous : Option Char} {x y rest : Text}
    (h : joinedNever? (Text.lastOr previous x) y = some rest) : HoldsNever (x ++ y) := by
  unfold joinedNever? at h
  split at h
  · -- the bar comes first: the word stands behind it, or behind the blanks that follow it
    rename_i r hr
    obtain ⟨u, hu, hnever⟩ := Option.bind_eq_some_iff.1 hr
    obtain ⟨before, behind, hbehind, rfl⟩ := pipe?_eq_some hu
    obtain ⟨_, rfl, hrest⟩ := never?_eq_some_iff.1 hnever
    refine ⟨x ++ before ++ '|' :: behind, r, by simp, ?_, hrest⟩
    have hfree : ∀ c ∈ '|' :: behind, touchesNever c = false := by
      intro c hc
      rcases List.mem_cons.1 hc with rfl | hc
      · decide
      · exact touchesNever_of_isBlank (hbehind c hc)
    rw [List.getLast?_append_cons, List.getLast?_cons]
    exact hfree _ (List.mem_of_getLast? (by rw [List.getLast?_cons]))
  · obtain ⟨u, hu, _⟩ := Option.bind_eq_some_iff.1 h
    obtain ⟨hx, rfl, hrest⟩ := never?_eq_some_iff.1 hu
    exact ⟨x, u, rfl, touches_of_lastOr hx, hrest⟩

/-- Where the placeholder does not stand, it stands beside no bar. -/
theorem misses_joinedNever? {previous : Option Char} (h : ¬HoldsNever t) :
    Text.Misses joinedNever? previous t [] := by
  refine Text.misses_iff.2 fun x c y heq => ?_
  rw [List.append_nil]
  by_contra hsome
  obtain ⟨rest, hrest⟩ := Option.ne_none_iff_exists'.1 hsome
  exact h (heq ▸ holdsNever_of_joinedNever? hrest)

/-- Where the placeholder does not stand, there is none to read. -/
theorem misses_never? {previous : Option Char} (h : ¬HoldsNever t) :
    Text.Misses never? previous t [] := by
  refine Text.misses_iff.2 fun x c y heq => ?_
  rw [List.append_nil]
  by_contra hsome
  obtain ⟨rest, hrest⟩ := Option.ne_none_iff_exists'.1 hsome
  obtain ⟨hx, hcy, hy⟩ := never?_eq_some_iff.1 hrest
  exact h ⟨x, rest, by rw [heq, hcy], touches_of_lastOr hx, hy⟩

/-- **A text without the placeholder** is only trimmed. -/
theorem stripped_eq_trim (h : ¬HoldsNever t) : stripped t = t.trim := by
  unfold stripped
  rw [Text.replaceAll_of_misses (misses_joinedNever? h), Text.replaceAll_of_misses (misses_never? h)]

/-- The placeholder alone leaves nothing. -/
theorem stripped_neverWord : stripped neverWord = [] := by
  have hjoined : Text.Misses joinedNever? none neverWord [] :=
    ⟨rfl, rfl, rfl, rfl, rfl, trivial⟩
  have hnever : Text.replaceAll never? [] none (neverWord ++ []) = [] ++ [] :=
    (Text.replaceAll_of_match (by decide) rfl).trans (by rw [Text.replaceAll_nil])
  unfold stripped
  rw [Text.replaceAll_of_misses hjoined, ← List.append_nil neverWord, hnever]
  rfl

/-! ## What is left -/

section Left

variable {previous : Option Char} {rest : Text}

theorem suffix_of_never? (h : never? previous t = some rest) : rest <:+ t :=
  ⟨neverWord, (never?_eq_some_iff.1 h).2.1.symm⟩

theorem suffix_of_pipe? (h : pipe? t = some rest) : rest <:+ t := by
  obtain ⟨before, behind, _, rfl⟩ := pipe?_eq_some h
  exact ⟨before ++ '|' :: behind, by simp⟩

theorem suffix_of_joinedNever? (h : joinedNever? previous t = some rest) : rest <:+ t := by
  unfold joinedNever? at h
  split at h
  · rename_i r hr
    obtain ⟨u, hu, hnever⟩ := Option.bind_eq_some_iff.1 hr
    obtain rfl := Option.some.inj h
    exact (suffix_of_never? hnever).trans (suffix_of_pipe? hu)
  · obtain ⟨u, hnever, hu⟩ := Option.bind_eq_some_iff.1 h
    exact (suffix_of_pipe? hu).trans (suffix_of_never? hnever)

/-- **To drop the placeholder brings nothing in**, and leaves the rest in its order. -/
theorem stripped_sublist (t : Text) : (stripped t).Sublist t :=
  (Text.trim_sublist _).trans ((Text.replaceAll_sublist suffix_of_never? _ _).trans
    (Text.replaceAll_sublist suffix_of_joinedNever? _ _))

end Left

end Union

end Fabula
