import Fabula.Proofs.Patch.BlankLines
import Fabula.Proofs.Patch.Brace
import Fabula.Proofs.Registry.Entries
import Fabula.Proofs.Text.Occurrences
import Fabula.Registry.PassageMap

/-!
# The loaders of other events

The loader of an event goes in two steps: first the entries of its key, as from any container,
and then all the lines that hold its spread, wherever they are. Both take more than they are
meant to take where a line holds more than one thing. So the other events keep their loaders,
and the container stays in its place, as far as the lines that name the event are its own
(`Registry.LoadersApart`): they hold no brace and nothing of the other event. A line names an
event when the key stands in it, or the text of the spread without the comma behind it. Hence an
event whose spread goes on like that of a longer id takes the other one's spread with it, and an
event with the id of the container itself takes the header (`removeLoader_of_container`).

No layout is assumed. The register may have been edited by hand, with several loaders on a line,
comments, or blank lines, and all that is asked for is a container that can be located.

## What is compared

Of two texts it is said that they are the same for an event (`Registry.SameLoaders`): every text
that is written for the event occurs as often in both, and the braces are the same, in the same
order. The former is what the event has, and the latter is what the container is found by. Both
are counted line by line, so that they are kept when a text is put together from lines that keep
them (`Registry.SameLoaders.append_feed`), and when a line that is the event's own goes.

## The two steps

In the first, every match of the pattern takes the blanks in front of the key and the rest of
its last line. Since these are lines of the event's own, the text with the matches and the one
without are the same for the other event. The argument runs along the pieces of the replacement
(`Registry.sameLoaders_of_cuts`).

In the second, lines are filtered, and those that go hold the spread. In the container these are
lines of the event's own, and around it there are none. So only the body of the container loses
lines (`Registry.removeLinesContaining_container`), and its header is found where it was,
because the other key is not its name (`Registry.misses_header`).

Nothing is asked for to say that the spread of the event is gone afterwards, since the second
step goes over the whole text.
-/

namespace Fabula

open scoped Engine.Tireless

open Removal

namespace Registry

variable {a b w line s t source : Text}

/-! ## What is written for an event -/

/-- **What is written for the passages of an event**: the entry that loads them from some
module, or the spread of an older register. -/
inductive IsLoaderOf (event : Text) : Text → Prop
  | entry (module : Text) (h : '\n' ∉ module) : IsLoaderOf event (loaderEntry event module)
  | spread : IsLoaderOf event (loaderSpread event ++ [','])

theorem isSpelled_loaderSpread (ha : a.isId = true) : IsSpelled ['.'] (loaderSpread a) := by
  have hlead : IsSpelled ['.'] "...".toList := by decide
  have hend : IsSpelled ['.'] "EventPassages".toList := by decide
  exact hlead.append ((IsSpelled.of_name (isWord_of_isId ha).isNameText).append hend)

theorem loaderSpread_ne_nil (a : Text) : loaderSpread a ≠ [] :=
  List.append_ne_nil_of_left_ne_nil (by decide) _

/-- **A loader is counted line by line.** -/
theorem IsLoaderOf.isOnLine (hb : b.isId = true) (h : IsLoaderOf b w) : Text.IsOnLine w := by
  have hword := isWord_of_isId hb
  have hlast : ∀ {t : Text} {d : Char}, t.getLast? = some d → isBlank d = false →
      ∀ c, isBlank c = true → t.getLast? ≠ some c := by
    intro t d ht hd c hc heq
    rw [ht] at heq
    obtain rfl := Option.some.inj heq
    rw [hc] at hd
    cases hd
  cases h with
  | entry module hmodule =>
    rw [loaderEntry_eq]
    have hlead : '\n' ∉ loaderLead := by decide
    have hend : '\n' ∉ loaderEnd := by decide
    refine ⟨by simp, ?_, hlast (d := ')') ?_ (by decide)⟩
    · simp [hword.not_mem (c := '\n') (by decide), hlead, hmodule, hend]
    · rw [← List.append_assoc, ← List.cons_append, ← List.append_assoc, List.getLast?_append]
      rfl
  | spread =>
    refine ⟨by simp, ?_, hlast (d := ',') List.getLast?_concat (by decide)⟩
    have hspread := (isSpelled_loaderSpread hb).not_mem (c := '\n') (by decide) (by decide)
    simp [hspread]

/-- **A line names an event** that has its key in it, or what its spread is looked for by. -/
def NamesLoader (event line : Text) : Prop :=
  ¬ IsUnused event line ∨ loaderSpread event <:+: line

/-- **A line of its own**: nothing that another event needs stands in it. -/
structure IsOwnLine (other line : Text) : Prop where
  open_not_mem : '{' ∉ line
  close_not_mem : '}' ∉ line
  apart : ∀ w, IsLoaderOf other w → Text.occurrences w none line = 0

/-- What is written for an event has its id in it. -/
theorem IsLoaderOf.infix (h : IsLoaderOf b w) : b <:+: w := by
  cases h with
  | entry module =>
    exact ⟨[], ':' :: (loaderLead ++ (module ++ loaderEnd)), (loaderEntry_eq b module).symm⟩
  | spread => exact ⟨"...".toList, "EventPassages".toList ++ [','], by
      simp [loaderSpread, Template.passageRecord]⟩

/-- **A line is of its own** when the other event's id is not in it, and no brace. -/
theorem isOwnLine_of_not_infix (hopen : '{' ∉ line) (hclose : '}' ∉ line) (h : ¬ b <:+: line) :
    IsOwnLine b line :=
  ⟨hopen, hclose, fun _ hw => Text.occurrences_of_not_infix fun hin =>
    h (List.IsInfix.trans hw.infix hin)⟩

theorem IsOwnLine.of_start (h : IsOwnLine b line) (hs : s <+: line) : IsOwnLine b s := by
  obtain ⟨t, rfl⟩ := hs
  refine ⟨fun hm => h.open_not_mem (List.mem_append_left _ hm),
    fun hm => h.close_not_mem (List.mem_append_left _ hm), fun w hw => ?_⟩
  exact Nat.le_zero.1 ((Text.occurrences_le_append s t).trans_eq (h.apart w hw))

/-- **The loaders of two events are apart** in a container: the lines that name the first are
its own, and outside of the container there are none. -/
structure LoadersApart (a b : Text) (c : Container) : Prop where
  ne_container : a ≠ loaderContainer
  lacks_object : Lacks a IsObject c.written
  isOwnLine : ∀ line ∈ Text.split '\n' c.written, NamesLoader a line → IsOwnLine b line
  front_free : ¬ loaderSpread a <:+: c.front ++ c.header
  rest_free : ¬ loaderSpread a <:+: c.rest

/-- **Two texts are the same for an event** as to its loaders, and for the container as to its
braces. -/
structure SameLoaders (b s t : Text) : Prop where
  braces_eq : Brace.braces s = Brace.braces t
  occurrences_eq : ∀ w, IsLoaderOf b w → Text.occurrences w none s = Text.occurrences w none t

open Text

namespace SameLoaders

variable {s' t' : Text}

theorem refl (b s : Text) : SameLoaders b s s :=
  ⟨rfl, fun _ _ => rfl⟩

theorem symm (h : SameLoaders b s t) : SameLoaders b t s :=
  ⟨h.braces_eq.symm, fun w hw => (h.occurrences_eq w hw).symm⟩

theorem trans {u : Text} (h : SameLoaders b s t) (h' : SameLoaders b t u) : SameLoaders b s u :=
  ⟨h.braces_eq.trans h'.braces_eq, fun w hw => (h.occurrences_eq w hw).trans (h'.occurrences_eq w hw)⟩

/-- Lines are compared one by one. -/
theorem append_feed (hb : b.isId = true) (h : SameLoaders b s s') (h' : SameLoaders b t t') :
    SameLoaders b (s ++ '\n' :: t) (s' ++ '\n' :: t') where
  braces_eq := by
    have hfeed : ∀ u, Brace.braces ('\n' :: u) = Brace.braces u := fun _ => rfl
    rw [Brace.braces_append, Brace.braces_append, hfeed, hfeed, h.braces_eq, h'.braces_eq]
  occurrences_eq := fun w hw => by
    have honline := hw.isOnLine hb
    rw [honline.occurrences_append_feed, honline.occurrences_append_feed, h.occurrences_eq w hw,
      h'.occurrences_eq w hw]

/-- Blanks at the end make no difference. -/
theorem append_blanks {blanks : Text} (hb : b.isId = true) (s : Text)
    (hblanks : ∀ c ∈ blanks, isBlank c = true) : SameLoaders b (s ++ blanks) s where
  braces_eq := by
    rw [Brace.braces_append, Brace.braces_of_not_mem (not_mem_of_blank hblanks (by decide))
      (not_mem_of_blank hblanks (by decide)), List.append_nil]
  occurrences_eq := fun _ hw => (hw.isOnLine hb).occurrences_append_blanks hblanks

/-- **A line of the other event's own** makes no difference. -/
theorem append_ownLine {front : Text} (hb : b.isId = true)
    (hfront : front = [] ∨ ∃ lines, front = lines ++ ['\n']) (hline : IsOwnLine b line) :
    SameLoaders b (front ++ line) front where
  braces_eq := by
    rw [Brace.braces_append, Brace.braces_of_not_mem hline.open_not_mem hline.close_not_mem,
      List.append_nil]
  occurrences_eq := fun w hw => by
    have honline := hw.isOnLine hb
    rcases hfront with rfl | ⟨lines, rfl⟩
    · exact hline.apart w hw
    · rw [List.append_assoc, List.singleton_append, honline.occurrences_append_feed,
        honline.occurrences_append_feed, hline.apart w hw]
      rfl

end SameLoaders

/-! ## The entries of the key -/

/-- **A key in a line** is one in the text, behind the same character. -/
theorem exists_of_not_isUnused (h : line ∈ split '\n' t) (hused : ¬ IsUnused a line) :
    ∃ x y back, t = x ++ (a ++ ':' :: (y ++ back)) ∧ continuesName x.getLast? = false ∧
      ((∀ c, t.getLast? = some c → c ∈ line) ∨ ∃ lines, back = '\n' :: lines) := by
  obtain ⟨front, back, rfl, hfront, hback⟩ := exists_of_mem_split h
  obtain ⟨x, y, rfl, hx⟩ : ∃ x y, line = x ++ (a ++ ':' :: y) ∧ continuesName x.getLast? = false := by
    by_contra hnone
    refine hused fun x y heq => ?_
    by_contra hname
    exact hnone ⟨x, y, heq, Bool.not_eq_true _ ▸ hname⟩
  refine ⟨front ++ x, y, back, by simp, ?_, ?_⟩
  · rcases List.eq_nil_or_concat x with rfl | ⟨x, d, rfl⟩
    · rcases hfront with rfl | ⟨lines, rfl⟩
      · rfl
      · rw [List.append_nil, List.getLast?_concat]
        decide
    · rw [List.concat_eq_append] at hx ⊢
      rw [List.getLast?_concat] at hx
      rw [← List.append_assoc, List.getLast?_concat]
      exact hx
  · refine hback.imp_left ?_
    rintro rfl c hc
    rw [List.append_nil, List.getLast?_append_of_ne_nil _ (by simp)] at hc
    exact List.mem_of_getLast? hc

/-- **A key that is missed** has no line feed behind it. -/
theorem not_mem_of_misses {previous : Option Char} {x y : Text} (ha : IsWord a)
    (hprevious : continuesName previous = false) (hmiss : Misses (line? a) previous s t)
    (hs : s = x ++ (a ++ ':' :: y)) (hx : continuesName x.getLast? = false) : '\n' ∉ y ++ t := by
  intro hmem
  obtain ⟨behind, rest, hbehind, hfeed⟩ := List.eq_append_cons_of_mem hmem
  obtain ⟨c, cs, hcons⟩ := List.exists_cons_of_ne_nil ha.ne_nil
  have hnone := misses_iff.1 hmiss x c (cs ++ ':' :: y) (by rw [hs, hcons]; rfl)
  have hlast : continuesName (lastOr previous x) = false := by
    rcases List.eq_nil_or_concat x with rfl | ⟨x, d, rfl⟩
    · exact hprevious
    · rw [List.concat_eq_append] at hx ⊢
      rw [List.getLast?_concat] at hx
      rwa [lastOr_append, lastOr_cons, lastOr_nil]
  have hmatch : line? a (lastOr previous x) (c :: (cs ++ ':' :: y) ++ t) = some rest :=
    (line?_eq_some_iff ha.isKey).2 ⟨hlast, [], behind, by simp, hfeed, by
      rw [← List.cons_append, ← hcons, List.append_assoc, List.cons_append, hbehind]
      rfl⟩
  rw [hmatch] at hnone
  cases hnone

/-- **A match takes its last line**, and leaves what stands before it. -/
theorem sameLoaders_of_match {previous : Option Char} {u rest : Text} (ha : IsWord a)
    (hb : b.isId = true)
    (hmatch : line? a (lastOr previous s) (u ++ '\n' :: rest) = some rest)
    (hown : ∀ line ∈ split '\n' (s ++ u), NamesLoader a line → IsOwnLine b line) :
    SameLoaders b s (s ++ u) := by
  obtain ⟨hlast, blanks, behind, hblanks, hbehind, heq⟩ := (line?_eq_some_iff ha.isKey).1 hmatch
  obtain rfl : u = blanks ++ (a ++ ':' :: behind) := by
    refine List.append_cancel_right (heq.trans ?_)
    simp
  obtain ⟨front, key, hkey, hfront, hlines⟩ := exists_lastLine (s ++ blanks)
  have hline : '\n' ∉ key ++ (a ++ ':' :: behind) := by
    simp [hkey, ha.not_mem (c := '\n') (by decide), hbehind]
  have hwhole : s ++ (blanks ++ (a ++ ':' :: behind)) = front ++ (key ++ (a ++ ':' :: behind)) := by
    rw [← List.append_assoc, hfront, List.append_assoc]
  -- no name ends in front of the key, and the line the key stands on begins with what is there
  have hfree : continuesName (s ++ blanks).getLast? = false := by
    refine continuesName_append_blanks hblanks ?_
    rcases List.eq_nil_or_concat s with rfl | ⟨s, d, rfl⟩
    · rfl
    · rw [List.concat_eq_append] at hlast ⊢
      rw [lastOr_append, lastOr_cons, lastOr_nil] at hlast
      rwa [List.getLast?_concat]
  have hnames : NamesLoader a (key ++ (a ++ ':' :: behind)) := by
    refine .inl fun hunused => ?_
    have hname := hunused key behind rfl
    rw [hfront] at hfree
    rcases List.eq_nil_or_concat key with rfl | ⟨key, d, rfl⟩
    · cases hname
    · rw [List.concat_eq_append] at hname hfree
      rw [← List.append_assoc, List.getLast?_concat] at hfree
      rw [List.getLast?_concat, hfree] at hname
      cases hname
  have hownLine := hown _ (hwhole ▸ mem_split_lastLine hlines hline) hnames
  rw [hwhole]
  refine ((SameLoaders.append_blanks hb s hblanks).symm.trans ?_).trans
    (SameLoaders.append_ownLine hb hlines hownLine).symm
  rw [hfront]
  exact SameLoaders.append_ownLine hb hlines (hownLine.of_start (List.prefix_append _ _))

/-- **Without the entries of its key** an event has no key left, and the other event has what
it had. -/
theorem sameLoaders_of_cuts {previous : Option Char} {pieces : List Text} (ha : IsWord a)
    (hb : b.isId = true) (hcuts : Cuts (line? a) previous t pieces)
    (hprevious : continuesName previous = false)
    (hown : ∀ line ∈ split '\n' t, NamesLoader a line → IsOwnLine b line)
    (hend : t.getLast? = some '}') :
    SameLoaders b (join ['\n'] pieces) t ∧ ∀ line ∈ split '\n' (join ['\n'] pieces),
      IsUnused a line ∧ (loaderSpread a <:+: line → IsOwnLine b line) := by
  induction hcuts with
  | @last previous s hmiss =>
    rw [join_singleton]
    refine ⟨.refl b s, fun line hline => ⟨?_, fun h => hown line hline (.inr h)⟩⟩
    by_contra hused
    obtain ⟨x, y, back, hs, hx, hback⟩ := exists_of_not_isUnused hline hused
    have hfeed := not_mem_of_misses ha hprevious hmiss hs hx
    rcases hback with hclose | ⟨lines, rfl⟩
    · -- the line is the last one, which has the closing brace
      exact (hown line hline (.inl hused)).close_not_mem (hclose '}' hend)
    · simp at hfeed
  | @cut previous s u rest pieces hmiss hmatch hrest ih =>
    have happ : s ++ (u ++ '\n' :: rest) = (s ++ u) ++ '\n' :: rest := by simp
    rw [happ] at hown hend ⊢
    rw [split_append_cons] at hown
    have hend' : rest.getLast? = some '}' := by
      rw [List.getLast?_append_cons] at hend
      cases rest with
      | nil => exact absurd hend (by decide)
      | cons c rest => rwa [List.getLast?_cons_cons] at hend
    obtain ⟨hsame, hlines⟩ :=
      ih (by decide) (fun line hline => hown line (List.mem_append_right _ hline)) hend'
    have hjoin : join ['\n'] (s :: pieces) = s ++ '\n' :: join ['\n'] pieces := by
      rw [join_cons _ _ hrest.ne_nil]
      simp
    rw [hjoin]
    refine ⟨.append_feed hb (sameLoaders_of_match ha hb hmatch fun line hline =>
      hown line (List.mem_append_left _ hline)) hsame, fun line hline => ?_⟩
    rw [split_append_cons, List.mem_append] at hline
    rcases hline with hline | hline
    · refine ⟨?_, fun h => ?_⟩
      · by_contra hused
        obtain ⟨x, y, back, hs, hx, _⟩ := exists_of_not_isUnused hline hused
        exact not_mem_of_misses ha hprevious hmiss hs hx (by simp)
      · obtain ⟨line', hline', hpre⟩ := exists_mem_split_append u hline
        exact (hown line' (List.mem_append_left _ hline') (.inr (h.trans hpre.isInfix))).of_start
          hpre
    · exact hlines line hline

/-! ## The lines of the spread -/

/-- Whether a line is without a text. -/
def isWithout (w line : Text) : Bool :=
  !contains line w

theorem isWithout_iff : isWithout w line = true ↔ ¬ w <:+: line := by
  rw [isWithout, Bool.not_eq_true', Bool.eq_false_iff, ne_eq, contains_iff]

theorem removeLinesContaining_eq (w t : Text) :
    removeLinesContaining w t = join ['\n'] ((split '\n' t).filter (isWithout w)) := rfl

theorem removeLinesContaining_of_not_infix (h : ¬ w <:+: t) : removeLinesContaining w t = t := by
  rw [removeLinesContaining_eq, List.filter_eq_self.2 fun line hline =>
    isWithout_iff.2 fun hw => h (hw.trans (infix_of_mem_split hline)), join_split]

/-- **Without the lines that hold a text** no line holds it. -/
theorem not_infix_removeLinesContaining (hne : w ≠ []) (hfeed : '\n' ∉ w) (t : Text) :
    ¬ w <:+: removeLinesContaining w t := by
  intro h
  obtain ⟨line, hline, hin⟩ := (infix_join_iff hne hfeed).1 h
  exact isWithout_iff.1 (List.mem_filter.1 hline).2 hin

/-- **What stands in front stays**, when the line it shares with what follows does. -/
theorem removeLinesContaining_append_left
    (h : ∀ first rest, split '\n' t = first :: rest → ¬ w <:+: s ++ first) :
    removeLinesContaining w (s ++ t) = s ++ removeLinesContaining w t := by
  obtain ⟨init, last, first, rest, hs, ht, hst⟩ := exists_split_append '\n' s t
  have hfirst := h first rest ht
  have hinit : ∀ line ∈ init, isWithout w line = true := fun line hline =>
    isWithout_iff.2 fun hw => hfirst (hw.trans ((infix_of_mem_split (c := '\n')
      (by rw [hs]; exact List.mem_append_left _ hline)).trans (List.prefix_append s first).isInfix))
  have hshared : isWithout w (last ++ first) = true := by
    obtain ⟨front, hfront⟩ := suffix_of_split_eq hs
    exact isWithout_iff.2 fun hw => hfirst (hw.trans ⟨front, [], by rw [← hfront]; simp⟩)
  have hbegin : isWithout w first = true :=
    isWithout_iff.2 fun hw => hfirst (hw.trans (List.suffix_append s first).isInfix)
  rw [removeLinesContaining_eq, removeLinesContaining_eq, hst, ht, List.filter_append,
    List.filter_eq_self.2 hinit, List.filter_cons_of_pos hshared,
    List.filter_cons_of_pos hbegin, join_append_append, ← hs, join_split]

/-- What stands behind stays likewise. -/
theorem removeLinesContaining_append_right
    (h : ∀ init last, split '\n' s = init ++ [last] → ¬ w <:+: last ++ t) :
    removeLinesContaining w (s ++ t) = removeLinesContaining w s ++ t := by
  obtain ⟨init, last, first, rest, hs, ht, hst⟩ := exists_split_append '\n' s t
  have hlast := h init last hs
  have hrest : ∀ line ∈ rest, isWithout w line = true := fun line hline =>
    isWithout_iff.2 fun hw => hlast (hw.trans ((infix_of_mem_split (c := '\n')
      (by rw [ht]; exact List.mem_cons_of_mem _ hline)).trans (List.suffix_append last t).isInfix))
  have hshared : isWithout w (last ++ first) = true := by
    obtain ⟨back, hback⟩ := prefix_of_split_eq ht
    exact isWithout_iff.2 fun hw => hlast (hw.trans ⟨[], back, by rw [← hback]; simp⟩)
  have hend : isWithout w last = true :=
    isWithout_iff.2 fun hw => hlast (hw.trans (List.prefix_append last t).isInfix)
  rw [removeLinesContaining_eq, removeLinesContaining_eq, hst, hs, List.filter_append,
    List.filter_append, List.filter_cons_of_pos hshared,
    List.filter_eq_self.2 hrest, join_append_append, ← ht, join_split, List.filter_cons_of_pos hend]
  rfl

theorem braces_join (lines : List Text) :
    Brace.braces (join ['\n'] lines) = (lines.map Brace.braces).flatten := by
  induction lines with
  | nil => rfl
  | cons line lines ih =>
    cases lines with
    | nil => simp
    | cons second lines =>
      rw [join_cons _ _ (List.cons_ne_nil _ _), Brace.braces_append, Brace.braces_append, ih]
      simp [Brace.braces, Brace.isBrace]

/-- **Without lines of its own** the other event has what it had. -/
theorem sameLoaders_removeLinesContaining (hb : b.isId = true)
    (hown : ∀ line ∈ split '\n' t, w <:+: line → IsOwnLine b line) :
    SameLoaders b (removeLinesContaining w t) t := by
  have hgone : ∀ line, ¬ isWithout w line = true → w <:+: line := fun line hline =>
    not_not.1 (mt isWithout_iff.2 hline)
  constructor
  · conv_rhs => rw [← join_split '\n' t]
    rw [removeLinesContaining_eq, braces_join, braces_join]
    generalize split '\n' t = lines at hown
    induction lines with
    | nil => rfl
    | cons line lines ih =>
      obtain ⟨hline, hlines⟩ := List.forall_mem_cons.1 hown
      by_cases hkept : isWithout w line = true
      · rw [List.filter_cons_of_pos hkept, List.map_cons, List.map_cons, List.flatten_cons,
          List.flatten_cons, ih hlines]
      · have hownLine := hline (hgone line hkept)
        rw [List.filter_cons_of_neg hkept, ih hlines, List.map_cons, List.flatten_cons,
          Brace.braces_of_not_mem hownLine.open_not_mem hownLine.close_not_mem, List.nil_append]
  · intro w' hw'
    conv_rhs => rw [← join_split '\n' t]
    rw [removeLinesContaining_eq, (hw'.isOnLine hb).occurrences_join, (hw'.isOnLine hb).occurrences_join]
    generalize split '\n' t = lines at hown
    induction lines with
    | nil => rfl
    | cons line lines ih =>
      obtain ⟨hline, hlines⟩ := List.forall_mem_cons.1 hown
      by_cases hkept : isWithout w line = true
      · rw [List.filter_cons_of_pos hkept, List.map_cons, List.map_cons, List.sum_cons,
          List.sum_cons, ih hlines]
      · rw [List.filter_cons_of_neg hkept, ih hlines, List.map_cons, List.sum_cons,
          (hline (hgone line hkept)).apart w' hw', Nat.zero_add]

/-- The lines that are left were there before, and hold no such text. -/
theorem mem_split_removeLinesContaining (hne : w ≠ [])
    (h : line ∈ split '\n' (removeLinesContaining w t)) :
    ¬ w <:+: line ∧ (line = [] ∨ line ∈ split '\n' t) := by
  rw [removeLinesContaining_eq] at h
  by_cases hnil : (split '\n' t).filter (isWithout w) = []
  · rw [hnil, join_nil, split_nil, List.mem_singleton] at h
    subst h
    exact ⟨fun hw => hne (List.infix_nil.1 hw), .inl rfl⟩
  · rw [split_join hnil fun p hp => not_mem_of_mem_split (List.mem_filter.1 hp).1] at h
    obtain ⟨hline, hkept⟩ := List.mem_filter.1 h
    exact ⟨isWithout_iff.1 hkept, .inr hline⟩

section Container

variable {front header body rest : Text}

/-- What is on no line of a brace is not in the body, up to the next line feed. -/
theorem not_infix_of_isOwnLine
    (hown : ∀ line ∈ split '\n' (header ++ (body ++ ['}'])), w <:+: line → IsOwnLine b line)
    {l : Text} (hl : l <:+: header ++ (body ++ ['}'])) (hfeed : '\n' ∉ l)
    (hbrace : '{' ∈ l ∨ '}' ∈ l) : ¬ w <:+: l := by
  intro hw
  have hne : l ≠ [] := by
    rintro rfl
    simp at hbrace
  obtain ⟨line, hline, hin⟩ := exists_mem_split_of_infix hne hfeed hl
  have hownLine := hown line hline (hw.trans hin)
  rcases hbrace with hopen | hclose
  · exact hownLine.open_not_mem (hin.subset hopen)
  · exact hownLine.close_not_mem (hin.subset hclose)

/-- A text without the brace that ends a header is in front of the brace or behind it. -/
theorem infix_append_of_suffix {x y : Text} (hopen : '{' ∉ w) (hheader : header.getLast? = some '{')
    (hx : x <:+ header) (h : w <:+: x ++ y) : w <:+: header ∨ w <:+: y := by
  rcases List.eq_nil_or_concat x with rfl | ⟨x, d, rfl⟩
  · exact .inr h
  · rw [List.concat_eq_append] at hx h
    obtain ⟨z, rfl⟩ := hx
    rw [← List.append_assoc, List.getLast?_concat] at hheader
    obtain rfl := Option.some.inj hheader
    obtain ⟨u, v, huv⟩ := h
    rw [List.append_assoc, List.append_assoc, List.singleton_append] at huv
    rcases split_occurrence hopen huv.symm with ⟨z', hz, _⟩ | ⟨z', _, hz⟩
    · exact .inl ⟨z ++ u, z' ++ ['{'], by rw [hz]; simp⟩
    · exact .inr ⟨z', v, by rw [hz]; simp⟩

/-- **Only the body of a container loses lines**, when those that go are not those of its braces
and there are none around it. -/
theorem removeLinesContaining_container (hopen : '{' ∉ w) (hclose : '}' ∉ w)
    (hfront : ¬ w <:+: front ++ (header ++ ['{'])) (hrest : ¬ w <:+: rest)
    (hown : ∀ line ∈ split '\n' (header ++ ['{'] ++ (body ++ ['}'])), w <:+: line →
      IsOwnLine b line) :
    removeLinesContaining w (front ++ (header ++ ['{'] ++ (body ++ '}' :: rest))) =
      front ++ (header ++ ['{'] ++ (removeLinesContaining w body ++ '}' :: rest)) := by
  have hlast : (front ++ (header ++ ['{'])).getLast? = some '{' := by
    rw [← List.append_assoc, List.getLast?_concat]
  have hleft : removeLinesContaining w (front ++ (header ++ ['{']) ++ body) =
      front ++ (header ++ ['{']) ++ removeLinesContaining w body := by
    refine removeLinesContaining_append_left fun first lines hsplit hw => ?_
    rcases infix_append_of_suffix hopen hlast List.suffix_rfl hw with hw | hw
    · exact hfront hw
    · obtain ⟨y, hy⟩ := prefix_of_split_eq hsplit
      have hfeed : '\n' ∉ first := not_mem_of_mem_split (by rw [hsplit]; exact List.mem_cons_self)
      refine not_infix_of_isOwnLine (l := '{' :: first) hown ⟨header, y ++ ['}'], by rw [← hy]; simp⟩
        (by simp [hfeed]) (.inl List.mem_cons_self) (hw.trans (List.suffix_cons '{' first).isInfix)
  have hright : removeLinesContaining w (front ++ (header ++ ['{']) ++ body ++ '}' :: rest) =
      removeLinesContaining w (front ++ (header ++ ['{']) ++ body) ++ '}' :: rest := by
    refine removeLinesContaining_append_right fun init last hsplit hw => ?_
    have hfeed : '\n' ∉ last := not_mem_of_mem_split (by rw [hsplit]; simp)
    obtain ⟨x, y, hxy⟩ := hw
    rw [List.append_assoc] at hxy
    rcases split_occurrence hclose hxy.symm with ⟨z, hz, _⟩ | ⟨z, _, hz⟩
    · -- the last line of the body, with what stands before it on the line
      have hw : w <:+: last := ⟨x, z, by rw [hz, List.append_assoc]⟩
      obtain ⟨l, hl, hlfeed, hlw⟩ : ∃ l, l <:+ body ∧ '\n' ∉ l ∧ w <:+: l := by
        obtain ⟨p, hp⟩ := suffix_of_split_eq hsplit
        rcases List.append_eq_append_iff.1 hp with ⟨v, hv, hbody⟩ | ⟨v, hv, hbody⟩
        · rw [hbody] at hw hfeed
          rcases infix_append_of_suffix hopen hlast ⟨p, hv.symm⟩ hw with hw | hw
          · exact absurd hw hfront
          · exact ⟨body, List.suffix_rfl, fun h => hfeed (List.mem_append_right _ h), hw⟩
        · exact ⟨last, ⟨v, hbody.symm⟩, hfeed, hw⟩
      obtain ⟨v, rfl⟩ := hl
      refine not_infix_of_isOwnLine (l := l ++ ['}']) hown ⟨header ++ '{' :: v, [], by simp⟩
        (by simp [hlfeed]) (.inr (by simp)) (hlw.trans (List.prefix_append _ _).isInfix)
    · exact hrest ⟨z, y, by rw [hz, List.append_assoc]⟩
  have happ : ∀ u, front ++ (header ++ ['{'] ++ (u ++ '}' :: rest)) =
      front ++ (header ++ ['{']) ++ u ++ '}' :: rest := fun u => by simp
  rw [happ, happ, hright, hleft]

end Container

/-! ## The register without a loader -/

/-- **The header of the loaders is kept** when another key is removed. -/
theorem misses_header {header : Text} (ha : IsWord a) (hne : a ≠ loaderContainer)
    (hheader : ContainerKind.property.IsHeader loaderContainer header) (t : Text) :
    Misses (line? a) none header t := by
  obtain ⟨blanks, hblanks, rfl⟩ := hheader
  have hname : IsWord loaderContainer := ⟨by decide, by decide⟩
  have hstem : IsUnused a (loaderContainer ++ ':' :: blanks) :=
    isUnused_iff_lacks.2 (.colon ha hname hne (lacks_of_not_mem (not_mem_of_blank hblanks (by decide))))
  have hseam : IsSeam (loaderContainer ++ ':' :: (blanks ++ ['{'])) :=
    ⟨'{', by rw [← List.cons_append, ← List.append_assoc, List.getLast?_concat], by decide, by decide⟩
  rw [misses_iff]
  intro x c y hx
  by_contra hsome
  obtain ⟨rest, hrest⟩ := Option.ne_none_iff_exists'.1 hsome
  obtain ⟨hprev, gap, u, hgap, hu, -⟩ := reads_line? ha.isKey _ _ _ hrest
  have heq : (loaderContainer ++ ':' :: blanks) ++ '{' :: t = (x ++ gap) ++ ((a ++ [':']) ++ u) := by
    have hwhole : (loaderContainer ++ ':' :: (blanks ++ ['{'])) ++ t = x ++ (c :: y ++ t) := by
      rw [hx, List.append_assoc]
    rw [hu] at hwhole
    simpa using hwhole
  have hopen : '{' ∉ a ++ [':'] := by simp [ha.isKey.not_open]
  rcases split_occurrence hopen heq with ⟨z, hz, _⟩ | ⟨z, hz, _⟩
  · have hused := hstem (x ++ gap) z (by rw [hz]; simp)
    rw [lastOr_none] at hprev
    rw [continuesName_append_blanks hgap hprev] at hused
    cases hused
  · exact hseam.not_blanks hx hgap (v := z) (by rw [hz]; simp)

/-- **A removal of a loader takes the lines of the spread** from what it left of the entries. -/
theorem exists_of_removeLoader (h : removeLoader a source = .ok t) :
    ∃ s, t = removeLinesContaining (loaderSpread a) s ∧
      (removeEntry .property loaderContainer a source = .ok s ∨
        s = source ∧ ∃ e, removeEntry .property loaderContainer a source = .error e) := by
  have hspread : ∀ s, (if s.contains (loaderSpread a) then removeLinesContaining (loaderSpread a) s
      else s) = removeLinesContaining (loaderSpread a) s := by
    intro s
    split_ifs with hcontains
    · rfl
    · have hsame := removeLinesContaining_of_not_infix (mt contains_iff.2 hcontains)
      exact hsame.symm
  unfold removeLoader at h
  simp only [hspread] at h
  split at h
  · rename_i s hs
    exact ⟨s, (Except.ok.inj h).symm, .inl hs⟩
  · rename_i name key he
    exact ⟨source, (Except.ok.inj h).symm, .inr ⟨rfl, _, he⟩⟩
  · rename_i name he
    exact ⟨source, (Except.ok.inj h).symm, .inr ⟨rfl, _, he⟩⟩
  · cases h

/-- **The entries of the loader are lines**, and a container without them stays as it is. -/
theorem eq_replace_of_removeEntry {c : Container} (ha : IsWord a)
    (hc : Container.locate .property loaderContainer source = .ok c)
    (hobject : Lacks a IsObject c.written)
    (h : removeEntry .property loaderContainer a source = .ok s ∨
      s = source ∧ ∃ e, removeEntry .property loaderContainer a source = .error e) :
    s = c.replace (replaceAll (line? a) ['\n'] none c.written) := by
  have hkept : replaceAll (object? a) ['\n'] none c.written = c.written :=
    replaceAll_of_misses ((reads_object? ha.isKey).misses hobject)
  have hwithout : c.withoutEntry a =
      if replaceAll (line? a) ['\n'] none c.written ≠ c.written
      then .ok (replaceAll (line? a) ['\n'] none c.written)
      else .error (.entryNotFound c.name a) := by
    rw [Container.withoutEntry_tireless]
    dsimp only
    rw [hkept, if_neg (not_not.2 rfl)]
  rw [removeEntry_of_locate hc, hwithout] at h
  split_ifs at h with hline
  · rcases h with h | ⟨_, e, h⟩
    · exact (Except.ok.inj h).symm
    · cases h
  · rcases h with h | ⟨rfl, _⟩
    · cases h
    · rw [not_not.1 hline]
      obtain ⟨_, hsource, _⟩ := Container.locate_eq_ok_iff.1 hc
      rw [hsource, Container.replace, Container.written]
      simp

/-- Under the tireless engine the loaders of the other event are left. -/
theorem removeLoader_keeps_others_tireless (ha : a.isId = true) (hb : b.isId = true)
    (h : removeLoader a source = .ok t) :
    ¬ loaderSpread a <:+: t ∧
    ∀ c, Container.locate .property loaderContainer source = .ok c → LoadersApart a b c →
      ∃ body, Container.locate .property loaderContainer t = .ok { c with body := body } ∧
        (∀ w, IsLoaderOf b w → occurrences w none (Container.written { c with body := body }) =
          occurrences w none c.written) ∧
        ∀ line ∈ split '\n' (Container.written { c with body := body }), ¬ NamesLoader a line := by
  have hword := isWord_of_isId ha
  have hne := loaderSpread_ne_nil a
  have hspelled := isSpelled_loaderSpread ha
  have hopen : '{' ∉ loaderSpread a := hspelled.not_mem (by decide) (by decide)
  have hclose : '}' ∉ loaderSpread a := hspelled.not_mem (by decide) (by decide)
  obtain ⟨s, rfl, hs⟩ := exists_of_removeLoader h
  refine ⟨not_infix_removeLinesContaining hne (hspelled.not_mem (by decide) (by decide)) s,
    fun c hc hapart => ?_⟩
  obtain ⟨_, _, hheader, _, hbalanced, _⟩ := Container.locate_eq_ok_iff.1 hc
  obtain ⟨stem, _, hstem⟩ := hheader.eq_append_brace (by decide)
  -- first the entries go, with the header and the closing brace left
  obtain ⟨pieces, hcuts⟩ := (takesLines_line? a).exists_cuts none c.written
  have hend : c.written.getLast? = some '}' := List.getLast?_concat
  obtain ⟨hentries, hlines⟩ := sameLoaders_of_cuts hword hb hcuts rfl hapart.isOwnLine hend
  obtain ⟨body, hbody⟩ : ∃ body, join ['\n'] pieces = c.header ++ (body ++ ['}']) := by
    have hlast := hcuts.getLast?_join (by decide) hend
    have hfront : join ['\n'] pieces =
        c.header ++ replaceAll (line? a) ['\n'] (lastOr none c.header) (c.body ++ ['}']) := by
      rw [← hcuts.replaceAll_eq, Container.written, List.append_assoc,
        replaceAll_append (misses_header hword hapart.ne_container hheader _)]
    rw [hfront] at hlast ⊢
    rcases List.eq_nil_or_concat (replaceAll (line? a) ['\n'] (lastOr none c.header)
      (c.body ++ ['}'])) with hnil | ⟨body, d, hconcat⟩
    · rw [hnil, List.append_nil, hstem, List.getLast?_concat] at hlast
      exact absurd (Option.some.inj hlast) (by decide)
    · rw [hconcat, List.concat_eq_append, ← List.append_assoc, List.getLast?_concat] at hlast
      obtain rfl := Option.some.inj hlast
      exact ⟨body, by rw [hconcat, List.concat_eq_append]⟩
  have hsource : s = c.front ++ (stem ++ ['{'] ++ (body ++ '}' :: c.rest)) := by
    rw [eq_replace_of_removeEntry hword hc hapart.lacks_object hs, hcuts.replaceAll_eq, hbody,
      Container.replace, hstem]
    simp
  -- then the lines of the spread, from the body alone
  rw [hbody, hstem] at hentries hlines
  have hown : ∀ line ∈ split '\n' (stem ++ ['{'] ++ (body ++ ['}'])), loaderSpread a <:+: line →
      IsOwnLine b line := fun line hline => (hlines line hline).2
  have hfront : ¬ loaderSpread a <:+: c.front ++ (stem ++ ['{']) := hstem ▸ hapart.front_free
  have hleft : removeLinesContaining (loaderSpread a) s =
      c.front ++ (c.header ++ (removeLinesContaining (loaderSpread a) body ++ '}' :: c.rest)) := by
    rw [hsource, removeLinesContaining_container hopen hclose hfront hapart.rest_free hown, hstem]
  have hwritten : Container.written { c with body := removeLinesContaining (loaderSpread a) body } =
      removeLinesContaining (loaderSpread a) (stem ++ ['{'] ++ (body ++ ['}'])) := by
    have halone : removeLinesContaining (loaderSpread a) ([] ++ (stem ++ ['{'] ++ (body ++ ['}']))) =
        [] ++ (stem ++ ['{'] ++ (removeLinesContaining (loaderSpread a) body ++ ['}'])) :=
      removeLinesContaining_container hopen hclose
        (fun hw => hfront (hw.trans (List.suffix_append c.front _).isInfix))
        (fun hw => hne (List.infix_nil.1 hw)) hown
    rw [List.nil_append, List.nil_append] at halone
    rw [halone, Container.written, hstem, List.append_assoc]
  have hsame : SameLoaders b
      (Container.written { c with body := removeLinesContaining (loaderSpread a) body }) c.written := by
    rw [hwritten]
    exact (sameLoaders_removeLinesContaining hb hown).trans hentries
  refine ⟨removeLinesContaining (loaderSpread a) body, ?_, hsame.occurrences_eq, fun line hline => ?_⟩
  · rw [hleft]
    refine Container.locate_rewritten hc (by decide) ((Brace.isBalanced_congr ?_).2 hbalanced) c.rest
    have hbraces := hsame.braces_eq
    simp only [Container.written, Brace.braces_append] at hbraces
    exact List.append_cancel_left (List.append_cancel_right hbraces)
  · rw [hwritten] at hline
    obtain ⟨hfree, rfl | hline⟩ := mem_split_removeLinesContaining hne hline
    · exact not_or.2 ⟨not_not.2 (isUnused_iff_lacks.2 (lacks_of_not_mem (by simp))), hfree⟩
    · exact not_or.2 ⟨not_not.2 (hlines line hline).1, hfree⟩

/-- **Removing the loader of an event leaves the loaders of another one**, when the two are
apart: every entry and every spread of the other event is there as often as before, in a
container that is found where it was unless the search is given up, and no line names the
event. Whatever the register is, the spread of the event is nowhere left in it. -/
theorem removeLoader_keeps_others [Engine] (ha : a.isId = true) (hb : b.isId = true)
    (h : removeLoader a source = .ok t) :
    ¬ loaderSpread a <:+: t ∧
    ∀ c, Container.locate .property loaderContainer source = .ok c → LoadersApart a b c →
      ∃ body, (Completes (Container.locate .property loaderContainer t) →
          Container.locate .property loaderContainer t = .ok { c with body := body }) ∧
        (∀ w, IsLoaderOf b w → occurrences w none (Container.written { c with body := body }) =
          occurrences w none c.written) ∧
        ∀ line ∈ split '\n' (Container.written { c with body := body }), ¬ NamesLoader a line := by
  obtain ⟨hspread, hothers⟩ :=
    removeLoader_keeps_others_tireless ha hb ((isSteady_removeLoader _ _).tireless_eq_ok h)
  refine ⟨hspread, fun c hc hapart => ?_⟩
  obtain ⟨body, hagain, hkept⟩ :=
    hothers c ((Container.isSteady_locate _ _ _).tireless_eq_ok hc) hapart
  exact ⟨body, fun hsearch => ((Container.isSteady_locate _ _ _).eq hsearch).trans hagain, hkept⟩

theorem removeLoader_keeps_others_castle :
    Text.isId "village".toList = true ∧ Text.isId "castle".toList = true ∧
    ∃ t c body,
      removeLoader "village".toList ("passages: \x7b\n\tvillage: () => import('./v'),\n".toList ++
        "\tcastle: () => import('./c'),\n\t...villageEventPassages,\n\x7d".toList) = .ok t ∧
      Container.locate .property loaderContainer
        ("passages: \x7b\n\tvillage: () => import('./v'),\n".toList ++
          "\tcastle: () => import('./c'),\n\t...villageEventPassages,\n\x7d".toList) = .ok c ∧
      LoadersApart "village".toList "castle".toList c ∧
      Container.locate .property loaderContainer t = .ok { c with body := body } ∧
      occurrences (loaderEntry "castle".toList "./c".toList) none
        (Container.written { c with body := body }) = 1 := by
  let source := "passages: \x7b\n\tvillage: () => import('./v'),\n".toList ++
    "\tcastle: () => import('./c'),\n\t...villageEventPassages,\n\x7d".toList
  let c : Container := ⟨.property, loaderContainer, [], "passages: \x7b".toList,
    "\n\tvillage: () => import('./v'),\n\tcastle: () => import('./c'),\n".toList ++
      "\t...villageEventPassages,\n".toList, []⟩
  have hc : Container.locate .property loaderContainer source = .ok c := by
    decide +kernel
  have ht : removeLoader "village".toList source =
      .ok "passages: \x7b\n\tcastle: () => import('./c'),\n\x7d".toList := by
    decide +kernel
  have hword : IsWord "village".toList := ⟨by decide, by decide⟩
  have hapart : LoadersApart "village".toList "castle".toList c :=
    { ne_container := by decide
      lacks_object := by
        have hbehind : Lacks "village".toList IsObject (c.body ++ ['}']) :=
          lacks_object_of_not_mem (by decide)
        exact .colon (w := loaderContainer) hword ⟨by decide, by decide⟩ (by decide)
          (.cons hword (by decide) (.cons hword (by decide) hbehind))
      isOwnLine := by
        have hlines : ∀ line ∈ split '\n' c.written, NamesLoader "village".toList line →
            '{' ∉ line ∧ '}' ∉ line ∧ ¬ "castle".toList <:+: line := by
          simp only [NamesLoader, ← contains_iff, isUnused_iff]
          decide +kernel
        intro line hline hnames
        obtain ⟨hopen, hclose, hfree⟩ := hlines line hline hnames
        exact isOwnLine_of_not_infix hopen hclose hfree
      front_free := by
        rw [← contains_iff]
        decide +kernel
      rest_free := by
        rw [← contains_iff]
        decide +kernel }
  obtain ⟨_, hkept⟩ := removeLoader_keeps_others (b := "castle".toList) (by decide) (by decide) ht
  obtain ⟨body, hbody, hcount, _⟩ := hkept c hc hapart
  refine ⟨by decide, by decide, _, c, body, ht, hc, hapart, hbody (by decide +kernel), ?_⟩
  rw [hcount _ (.entry "./c".toList (by decide))]
  decide +kernel

/-- **An event with the name of the container** takes the header, and with it the place of all
the other loaders. -/
theorem removeLoader_of_container :
    Text.isId "passages".toList = true ∧ Text.isId "castle".toList = true ∧
    (∃ c, Container.locate .property loaderContainer
      "passages: \x7b\n\tcastle: () => import('./c'),\n\x7d".toList = .ok c) ∧
    removeLoader "passages".toList "passages: \x7b\n\tcastle: () => import('./c'),\n\x7d".toList =
      .ok "\n\tcastle: () => import('./c'),\n\x7d".toList ∧
    Container.locate .property loaderContainer "\n\tcastle: () => import('./c'),\n\x7d".toList =
      .error (.containerNotFound loaderContainer) :=
  ⟨by decide, by decide, ⟨⟨.property, loaderContainer, [], "passages: \x7b".toList,
    "\n\tcastle: () => import('./c'),\n".toList, []⟩, by decide +kernel⟩, by decide +kernel,
    by decide +kernel⟩

-- A spread that goes on like the text that is looked for goes with it.
example : removeLoader "village".toList
    "passages: \x7b\n\t...villageEventPassagesBEventPassages,\n\x7d".toList =
      .ok "passages: \x7b\n\x7d".toList := by
  decide +kernel

end Registry

end Fabula
