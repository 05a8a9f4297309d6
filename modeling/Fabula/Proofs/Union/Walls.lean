import Fabula.Proofs.Engine
import Fabula.Proofs.Union.Never
import Fabula.Proofs.Union.Alternatives

/-!
# What the placeholder is read across, and what not

A literal is a text between quotes, and its inside may hold the placeholder like any other text:
the patterns that drop it know nothing of literals. But they do not read across a quote, nor
across anything else that is neither of the word, nor blank, nor a bar (`Union.IsWall`). So what
is dropped between two such characters depends only on what stands there
(`Union.exists_stripped_sealed`). Text searches of this kind are split at a wall, the matches in
front of it being in front, and those behind it behind.

## The word alone

The pattern for the word alone, which makes the second pass, does not read across a bar or a
blank either. These do not touch the word, so it may be dropped on both sides of them by itself
(`Union.unread_append_cons`). After cutting a text at all characters that do not touch the word,
only pieces of characters that do are left, and there the placeholder stands only as all there
is (`Union.eq_neverWord_of_touches`). So the second pass leaves no placeholder, be there more
words beside each other or not, and be they brought together by the first pass
(`Union.not_holdsNever_stripped`).

## Once and for all

A text in which the placeholder does not stand is only trimmed, and what is left is trimmed.
Therefore dropping the placeholder a second time changes nothing. The searches of the second
time are made in another text, though, in which more blanks may stand beside each other, and an
engine may give them up where it did not the first time. So it is claimed for a second time that
is completed (`Union.withoutNever_settles`).
-/

namespace Fabula

namespace Union

variable {t u : Text} {c d : Char} {previous : Option Char}

/-! ## Walls -/

/-- **A character at which the patterns of the placeholder stop**: it is neither of the word
nor of what joins it to a neighbour. Quotes are such characters. -/
structure IsWall (c : Char) : Prop where
  not_blank : isBlank c = false
  not_bar : c ≠ '|'
  not_word : c ∉ neverWord

theorem isWall_of_isQuote (h : ScanState.isQuote c = true) : IsWall c := by
  simp only [ScanState.isQuote, Bool.or_eq_true, beq_iff_eq] at h
  rcases h with (rfl | rfl) | rfl
  all_goals exact ⟨by decide, by decide, by decide⟩

theorem pipe?_append_cons (hc : isBlank c = false) (hbar : c ≠ '|') (u t : Text) :
    pipe? (u ++ c :: t) = (pipe? u).map (· ++ c :: t) := by
  unfold pipe?
  rw [Text.dropWhile_append_cons hc]
  cases u.dropWhile isBlank with
  | nil => simp [hbar]
  | cons d v =>
    by_cases hd : d = '|'
    · subst hd
      exact congrArg some (Text.dropWhile_append_cons hc v t)
    · simp [hd]

theorem stopsAt_never? (hc : c ∉ neverWord) : Text.StopsAt never? c := by
  intro previous u
  by_cases hnone : ∀ t, never? previous (u ++ c :: t) = none
  · exact .inl hnone
  · obtain ⟨t, ht⟩ := not_forall.1 hnone
    obtain ⟨rest, hrest⟩ := Option.ne_none_iff_exists'.1 ht
    obtain ⟨hprevious, heq, hhead⟩ := never?_eq_some_iff.1 hrest
    rcases Text.split_occurrence (x := []) hc heq with ⟨v, rfl, rfl⟩ | ⟨z, hz, _⟩
    · refine .inr ⟨neverWord, v, by decide, rfl, fun t' => ?_⟩
      refine never?_eq_some_iff.2 ⟨hprevious, by simp, ?_⟩
      cases v with
      | nil => exact hhead
      | cons d v => exact hhead
    · simp at hz

/-- **A placeholder with its bar is read on one side of a wall.** -/
theorem stopsAt_joinedNever? (hc : IsWall c) : Text.StopsAt joinedNever? c := by
  have hpipe := pipe?_append_cons hc.not_blank hc.not_bar
  have hsuffix : ∀ {u v : Text}, pipe? u = some v → ∃ w, w ≠ [] ∧ u = w ++ v := by
    intro u v h
    obtain ⟨before, behind, _, rfl⟩ := pipe?_eq_some h
    exact ⟨before ++ '|' :: behind, by simp, by simp⟩
  intro previous u
  have hbehind : (∀ t, (never? previous (u ++ c :: t)).bind pipe? = none) ∨
      ∃ w v, w ≠ [] ∧ u = w ++ v ∧
        ∀ t, (never? previous (u ++ c :: t)).bind pipe? = some (v ++ c :: t) := by
    rcases stopsAt_never? hc.not_word previous u with hnone | ⟨w, v, hw, rfl, hv⟩
    · exact .inl fun t => by rw [hnone, Option.bind_none]
    · cases hz : pipe? v with
      | none => exact .inl fun t => by rw [hv, Option.bind_some, hpipe, hz, Option.map_none]
      | some z =>
        obtain ⟨w', _, rfl⟩ := hsuffix hz
        refine .inr ⟨w ++ w', z, by simp [hw], by simp, fun t => ?_⟩
        rw [hv, Option.bind_some, hpipe, hz, Option.map_some]
  -- where no bar with the word behind it is read, the word with a bar behind it is
  have hskip : (∀ t, (pipe? (u ++ c :: t)).bind (never? none) = none) →
      ∀ t, joinedNever? previous (u ++ c :: t) = (never? previous (u ++ c :: t)).bind pipe? := by
    intro hnone t
    unfold joinedNever?
    rw [hnone]
  cases hz : pipe? u with
  | none =>
    have hall := hskip fun t => by rw [hpipe, hz, Option.map_none, Option.bind_none]
    simp only [hall]
    exact hbehind
  | some z =>
    obtain ⟨w, hw, rfl⟩ := hsuffix hz
    have hbind : ∀ t, (pipe? (w ++ z ++ c :: t)).bind (never? none) = never? none (z ++ c :: t) :=
      fun t => by rw [hpipe, hz, Option.map_some, Option.bind_some]
    rcases stopsAt_never? hc.not_word none z with hnone | ⟨w', v, _, rfl, hv⟩
    · have hall := hskip fun t => by rw [hbind, hnone]
      simp only [hall]
      exact hbehind
    · refine .inr ⟨w ++ w', v, by simp [hw], by simp, fun t => ?_⟩
      unfold joinedNever?
      rw [hbind, hv]

/-! ## Between walls -/

/-- **A text that begins and ends with a wall.** -/
def IsSealed (t : Text) : Prop :=
  ∃ c inner d, IsWall c ∧ IsWall d ∧ t = c :: (inner ++ [d])

theorem trim_sealed (hc : IsWall c) (hd : IsWall d) (inner : Text) :
    Text.trim (c :: (inner ++ [d])) = c :: (inner ++ [d]) :=
  Text.trim_of_ends (c := c) (d := d) rfl hc.not_blank (List.getLast?_concat (l := c :: inner))
    hd.not_blank

/-- **Between walls, the text is what is left of it by itself.** -/
theorem exists_stripped_sealed (hc : IsWall c) (hd : IsWall d) (inner : Text) :
    ∃ inner', inner'.Sublist inner ∧ stripped (c :: (inner ++ [d])) = c :: (inner' ++ [d]) := by
  obtain ⟨inner₁, h₁, hjoined⟩ := Text.exists_replaceAll_between (stopsAt_joinedNever? hc)
    (stopsAt_joinedNever? hd) inner
  obtain ⟨inner₂, h₂, hnever⟩ := Text.exists_replaceAll_between (stopsAt_never? hc.not_word)
    (stopsAt_never? hd.not_word) inner₁
  refine ⟨inner₂, h₂.trans h₁, ?_⟩
  unfold stripped
  rw [hjoined, Text.replaceAll_nil, hnever, Text.replaceAll_nil, trim_sealed hc hd]

/-! ## The word alone -/

/-- What the second pass does to a text. -/
abbrev unread (t : Text) : Text :=
  Text.replaceAll never? [] none t

/-- What does not touch the placeholder ends a text for it. -/
theorem never?_append_cons (hc : touchesNever c = false) (previous : Option Char) (u t : Text) :
    never? previous (u ++ c :: t) = (never? previous u).map (· ++ c :: t) := by
  ext rest
  rw [never?_eq_some_iff, Option.map_eq_some_iff]
  constructor
  · rintro ⟨hprevious, heq, hrest⟩
    rcases Text.split_occurrence (x := []) (not_mem_neverWord hc) heq with ⟨z, rfl, rfl⟩ | ⟨z, hz, _⟩
    · refine ⟨z, never?_eq_some_iff.2 ⟨hprevious, rfl, ?_⟩, rfl⟩
      cases z with
      | nil => rfl
      | cons d z => exact hrest
    · simp at hz
  · rintro ⟨v, hv, rfl⟩
    obtain ⟨hprevious, rfl, hrest⟩ := never?_eq_some_iff.1 hv
    refine ⟨hprevious, by simp, ?_⟩
    cases v with
    | nil => exact hc
    | cons d v => exact hrest

/-- **The word is dropped on both sides** of what does not touch it. -/
theorem unread_append_cons (hc : touchesNever c = false) (s t : Text) :
    unread (s ++ c :: t) = unread s ++ c :: unread t := by
  have hsame : ∀ t, never? (some c) t = never? none t := by
    intro t
    unfold never?
    rw [Option.any_some, hc, Option.any_none]
  rw [unread, Text.replaceAll_append_cons (fun previous u => never?_append_cons hc previous u t),
    Text.replaceAll_congr hsame]

theorem unread_of_not_holdsNever (h : ¬HoldsNever t) : unread t = t :=
  Text.replaceAll_of_misses (misses_never? h)

/-- **Blanks around a text** are not part of what the word is dropped from. -/
theorem trim_unread (t : Text) : (unread t.trim).trim = (unread t).trim := by
  obtain ⟨before, behind, hbefore, hbehind, heq⟩ := Text.exists_trim t
  have hblank : ∀ blanks : Text, (∀ c ∈ blanks, isBlank c = true) → unread blanks = blanks :=
    fun blanks h => unread_of_not_holdsNever (not_holdsNever_of_blank h)
  have hfirst : ∀ u, unread (before ++ u) = before ++ unread u := by
    intro u
    rcases List.eq_nil_or_concat before with rfl | ⟨front, c, rfl⟩
    · rfl
    · rw [List.concat_eq_append] at hbefore ⊢
      obtain ⟨hfront, hc⟩ := List.forall_mem_append.1 hbefore
      rw [List.append_assoc, List.singleton_append,
        unread_append_cons (touchesNever_of_isBlank (hc c List.mem_cons_self)), hblank front hfront]
      simp
  have hlast : ∀ u, unread (u ++ behind) = unread u ++ behind := by
    intro u
    cases behind with
    | nil => rw [List.append_nil, List.append_nil]
    | cons c behind =>
      obtain ⟨hc, hrest⟩ := List.forall_mem_cons.1 hbehind
      rw [unread_append_cons (touchesNever_of_isBlank hc), hblank behind hrest]
  conv_rhs => rw [heq, hfirst, hlast]
  exact (Text.trim_between hbefore hbehind).symm

/-- The word is dropped from each piece. -/
theorem unread_join (pieces : List Text) :
    unread (Text.join ['|'] pieces) = Text.join ['|'] (pieces.map unread) := by
  induction pieces with
  | nil => exact Text.replaceAll_nil
  | cons p rest ih =>
    by_cases hnil : rest = []
    · rw [hnil, Text.join_singleton]
      exact (Text.join_singleton _ _).symm
    · rw [Text.join_cons _ _ hnil, List.append_assoc, List.singleton_append,
        unread_append_cons (by decide), ih, List.map_cons, Text.join_cons _ _ (by simpa using hnil),
        List.append_assoc]
      rfl

theorem unread_neverWord : unread neverWord = [] := by
  rw [unread, ← List.append_nil neverWord, Text.replaceAll_of_match (by decide) rfl,
    Text.replaceAll_nil]
  rfl

/-- Among characters that touch it, the placeholder stands only as all there is. -/
theorem eq_neverWord_of_touches (h : ∀ c ∈ t, touchesNever c = true) (hholds : HoldsNever t) :
    t = neverWord := by
  obtain ⟨x, y, rfl, hx, hy⟩ := hholds
  have hfirst : x = [] := by
    rw [← List.getLast?_eq_none_iff]
    by_contra hsome
    obtain ⟨c, hc⟩ := Option.ne_none_iff_exists'.1 hsome
    rw [hc, Option.any_some, h c (by simp [List.mem_of_getLast? hc])] at hx
    cases hx
  have hlast : y = [] := by
    cases y with
    | nil => rfl
    | cons c y =>
      rw [List.head?_cons, Option.any_some, h c (by simp)] at hy
      cases hy
  rw [hfirst, hlast, List.nil_append, List.append_nil]

/-- The second pass leaves none. -/
theorem not_holdsNever_unread (t : Text) : ¬HoldsNever (unread t) := by
  induction hn : t.length using Nat.strong_induction_on generalizing t with
  | _ n ih =>
    by_cases hall : ∀ c ∈ t, touchesNever c = true
    · by_cases hholds : HoldsNever t
      · rw [eq_neverWord_of_touches hall hholds, unread_neverWord]
        decide
      · rwa [unread_of_not_holdsNever hholds]
    · -- the text splits at a character that does not touch it, and each side has less
      push Not at hall
      obtain ⟨c, hmem, hc⟩ := hall
      obtain ⟨s, u, rfl⟩ := List.append_of_mem hmem
      have hfree : touchesNever c = false := Bool.eq_false_iff.2 hc
      rw [List.length_append, List.length_cons] at hn
      rw [unread_append_cons hfree, holdsNever_append_cons hfree]
      exact not_or.2 ⟨ih s.length (by omega) s rfl, ih u.length (by omega) u rfl⟩

/-- **No placeholder is left.** -/
theorem not_holdsNever_stripped (t : Text) : ¬HoldsNever (stripped t) := by
  rw [stripped, holdsNever_trim]
  exact not_holdsNever_unread _

/-- What is not changed is what does not hold the placeholder. -/
theorem stripped_eq_self_iff (htrim : t.trim = t) : stripped t = t ↔ ¬HoldsNever t :=
  ⟨fun h => h ▸ not_holdsNever_stripped t, fun h => (stripped_eq_trim h).trans htrim⟩

@[simp] theorem stripped_nil : stripped [] = [] :=
  (stripped_eq_self_iff rfl).2 (by decide)

end Union

end Fabula
