import Fabula.Proofs.Text.Pieces
import Fabula.Proofs.Patch.Removal

/-!
# Where a removal leaves a blank line

A removal puts one line feed in the place of everything it takes away, on the understanding that
the blanks in front of the key, and with them the line feed before it, are taken too. A match
does begin at the first of these blanks, but for two reasons it may not:

* behind a character that continues a name no match begins, so the line feed that ends an entry
  without punctuation stays, and
* a match ends with its line, so the next one has only what follows that line feed to take.

In the first case the line feed that stays stands in front of the one that is written. In the
second case the one that was written does. This module shows that there are no other cases.

## Pieces

`Text.Cuts` tells a replacement by the pieces it keeps: the text up to the first match, the text
between any two matches, and the text behind the last one. Every match ends with a line feed, so
each piece but the first begins behind one, and the result of the replacement is the pieces with
line feeds between them (`Text.Cuts.replaceAll_eq`). A blank line in it lies within a piece, or
it has one of the new line feeds in it (`Text.hasBlankLine_append_feed_iff`). It does not lie
within a piece, since the container has none. And it does not begin with a new line feed and end
in the piece behind it, for in the container a line feed was there as well, the last character
of the match. So it ends with a new line feed, and the piece in front ends at the start of a
line.

If that piece is empty it stands behind another match. Otherwise its last line consists of
blanks, or it has a line feed before them, and the match that follows has not taken them,
although it takes blanks if it can (`Text.TakesLines`). The reason can only be the character in
front of them, which continues a name; and there is one blank, the line feed itself, because the
match could have begun behind it.

So a container without blank lines has one after a removal if and only if a piece in front of a
match ends in a name and a line feed, or is empty behind another match
(`removeEntry_hasBlankLine_iff`). Of the key nothing is asked, and nothing of the container but
that it has no blank line before.
-/

namespace Fabula

open scoped Engine.Tireless

namespace Text

/-! ## Blank lines -/

/-- **A blank line**: two line feeds with nothing but blanks between them. -/
def HasBlankLine (t : Text) : Prop :=
  ∃ x blanks y, (∀ c ∈ blanks, isBlank c = true) ∧ t = x ++ '\n' :: (blanks ++ '\n' :: y)

/-- **A text ends at the start of a line**: behind its last line feed there are only blanks. -/
def EndsAtLine (t : Text) : Prop :=
  ∃ x blanks, (∀ c ∈ blanks, isBlank c = true) ∧ t = x ++ '\n' :: blanks

variable {s t : Text} {previous : Option Char}

theorem hasBlankLine_cons_iff {c : Char} :
    HasBlankLine (c :: t) ↔ (c = '\n' ∧ '\n' ∈ t.takeWhile isBlank) ∨ HasBlankLine t := by
  constructor
  · rintro ⟨x, blanks, y, hb, heq⟩
    cases x with
    | nil =>
      obtain ⟨rfl, rfl⟩ := List.cons.inj heq
      refine .inl ⟨rfl, ?_⟩
      rw [List.takeWhile_append_of_pos hb, List.takeWhile_cons_of_pos (by decide)]
      simp
    | cons d x =>
      obtain ⟨_, rfl⟩ := List.cons.inj heq
      exact .inr ⟨x, blanks, y, hb, rfl⟩
  · rintro (⟨rfl, hmem⟩ | ⟨x, blanks, y, hb, rfl⟩)
    · obtain ⟨blanks, z, hz⟩ := List.append_of_mem hmem
      refine ⟨[], blanks, z ++ t.dropWhile isBlank, fun c hc => ?_, ?_⟩
      · exact List.mem_takeWhile_imp (by rw [hz]; exact List.mem_append_left _ hc)
      · have hparts : t = List.takeWhile isBlank t ++ t.dropWhile isBlank :=
          List.takeWhile_append_dropWhile.symm
        rw [hz, List.append_assoc, List.cons_append] at hparts
        rw [List.nil_append, ← hparts]
    · exact ⟨c :: x, blanks, y, hb, rfl⟩

instance decidableHasBlankLine : DecidablePred HasBlankLine
  | [] => isFalse (by rintro ⟨x, blanks, y, _, h⟩; simp at h)
  | _ :: t =>
    have := decidableHasBlankLine t
    decidable_of_iff _ hasBlankLine_cons_iff.symm

/-- A blank line of a part is one of the whole. -/
theorem HasBlankLine.of_infix (h : HasBlankLine s) (hst : s <:+: t) : HasBlankLine t := by
  obtain ⟨x, blanks, y, hb, rfl⟩ := h
  obtain ⟨front, back, rfl⟩ := hst
  exact ⟨front ++ x, blanks, y ++ back, hb, by simp⟩

/-- **A line feed in a text** ends a blank line when what stands before it ends at the start
of a line; every other blank line is before it, or begins with it at the earliest. -/
theorem hasBlankLine_append_feed_iff :
    HasBlankLine (s ++ '\n' :: t) ↔ HasBlankLine s ∨ EndsAtLine s ∨ HasBlankLine ('\n' :: t) := by
  constructor
  · rintro ⟨x, blanks, y, hb, heq⟩
    rcases List.append_eq_append_iff.1 heq with ⟨z, hx, hz⟩ | ⟨z, rfl, hz⟩
    · exact .inr (.inr ⟨z, blanks, y, hb, hz⟩)
    · cases z with
      | nil => exact .inr (.inr ⟨[], blanks, y, hb, hz.symm⟩)
      | cons d z =>
        -- the first of the two line feeds stands before this one
        obtain ⟨rfl, htail⟩ := List.cons.inj (hz.trans (List.cons_append ..))
        rcases List.append_eq_append_iff.1 htail with ⟨v, rfl, hv⟩ | ⟨v, rfl, _⟩
        · cases v with
          | nil =>
            exact .inr (.inl ⟨x, blanks, hb, by rw [List.append_nil]⟩)
          | cons e v =>
            obtain ⟨rfl, _⟩ := List.cons.inj hv
            exact .inl ⟨x, blanks, v, hb, rfl⟩
        · exact .inr (.inl ⟨x, z, fun c hc => hb c (List.mem_append_left _ hc), rfl⟩)
  · rintro (h | ⟨x, blanks, hb, rfl⟩ | h)
    · exact h.of_infix (List.prefix_append _ _).isInfix
    · exact ⟨x, blanks, t, hb, by simp⟩
    · exact h.of_infix (List.suffix_append _ _).isInfix

/-! ## Replacing whole lines -/

/-- **A replacement, by the pieces it keeps**: the text up to the first match, the text
between any two of them, and the text behind the last. Every match takes a line feed last. -/
inductive Cuts (m : Option Char → Text → Option Text) : Option Char → Text → List Text → Prop
  /-- Nothing matches any more. -/
  | last {previous : Option Char} {s : Text} (h : Misses m previous s []) : Cuts m previous s [s]
  /-- A piece is kept, and the match behind it goes. -/
  | cut {previous : Option Char} {s u rest : Text} {pieces : List Text}
      (hs : Misses m previous s (u ++ '\n' :: rest))
      (hm : m (lastOr previous s) (u ++ '\n' :: rest) = some rest)
      (hrest : Cuts m (some '\n') rest pieces) :
      Cuts m previous (s ++ (u ++ '\n' :: rest)) (s :: pieces)

/-- **A pattern that takes lines**: a match ends with a line feed, and begins at a blank
before it unless the character in front of that blank continues a name. -/
structure TakesLines (m : Option Char → Text → Option Text) : Prop where
  feed : ∀ {previous t rest}, m previous t = some rest → ∃ u, t = u ++ '\n' :: rest
  earlier : ∀ {previous c t rest}, isBlank c = true → m (some c) t = some rest →
    m previous (c :: t) = none → continuesName previous = true

variable {m : Option Char → Text → Option Text} {pieces : List Text}

theorem Cuts.ne_nil (h : Cuts m previous t pieces) : pieces ≠ [] := by
  cases h with
  | last => exact List.cons_ne_nil _ _
  | cut => exact List.cons_ne_nil _ _

/-- Every text is cut in some way. -/
theorem TakesLines.exists_cuts (hm : TakesLines m) (previous : Option Char) (t : Text) :
    ∃ pieces, Cuts m previous t pieces := by
  induction hn : t.length using Nat.strong_induction_on generalizing previous t with
  | _ n ih =>
    cases hsearch : search? m previous t with
    | none => exact ⟨[t], .last (search?_eq_none_iff.1 hsearch).1⟩
    | some found =>
      obtain ⟨s, rest⟩ := found
      obtain ⟨r, rfl, hmatch, hmiss⟩ := search?_eq_some_iff.1 hsearch
      obtain ⟨u, rfl⟩ := hm.feed hmatch
      obtain ⟨pieces, hpieces⟩ := ih rest.length
        (by simp only [← hn, List.length_append, List.length_cons]; omega) (some '\n') rest rfl
      exact ⟨s :: pieces, .cut hmiss hmatch hpieces⟩

/-- **What a replacement comes to**: the pieces, with the new text between them. -/
theorem Cuts.replaceAll_eq {new : Text} (h : Cuts m previous t pieces) :
    replaceAll m new previous t = join new pieces := by
  induction h with
  | last h => rw [replaceAll_of_misses h, join_singleton]
  | @cut previous s u rest pieces hs hmatch hrest ih =>
    have happ : u ++ '\n' :: rest = (u ++ ['\n']) ++ rest := by simp
    rw [replaceAll_append hs, happ, replaceAll_of_match (by simp) (by rwa [← happ]), lastOr_append,
      lastOr_cons, lastOr_nil, ih, join_cons _ _ hrest.ne_nil, List.append_assoc]

/-- **What a text ends in is kept**, since no match is at the end. -/
theorem Cuts.getLast?_join {d : Char} (h : Cuts m previous t pieces) (hd : d ≠ '\n')
    (hend : t.getLast? = some d) : (join ['\n'] pieces).getLast? = some d := by
  induction h with
  | last => rwa [join_singleton]
  | @cut previous s u rest pieces _ _ hrest ih =>
    have hbehind : rest.getLast? = some d := by
      rw [← List.append_assoc, List.getLast?_append_cons] at hend
      cases rest with
      | nil => exact absurd (Option.some.inj hend).symm hd
      | cons c rest => rwa [List.getLast?_cons_cons] at hend
    rw [join_cons _ _ hrest.ne_nil, List.getLast?_append, ih hbehind]
    rfl

/-- A piece in front of a match ends in a name and a line feed. -/
def EndsInName (piece : Text) : Prop :=
  ∃ x d, piece = x ++ [d, '\n'] ∧ isNameChar d = true

/-- **Where a match leaves the start of a line before it**: it begins directly behind another
one, or behind a name and a line feed. -/
theorem TakesLines.endsAtLine_iff (hm : TakesLines m) (hprevious : continuesName previous = false)
    {u rest : Text} (hs : Misses m previous s (u ++ '\n' :: rest))
    (hmatch : m (lastOr previous s) (u ++ '\n' :: rest) = some rest) :
    EndsAtLine (previous.toList ++ s) ↔ (s = [] ∧ previous = some '\n') ∨ EndsInName s := by
  constructor
  · rintro ⟨x, blanks, hb, heq⟩
    rcases List.eq_nil_or_concat s with rfl | ⟨s, e, rfl⟩
    · rw [List.append_nil] at heq
      have hmem : '\n' ∈ previous.toList := by rw [heq]; simp
      exact .inl ⟨rfl, by simpa using hmem⟩
    · rw [List.concat_eq_append] at hs hmatch heq ⊢
      rw [lastOr_append, lastOr_cons, lastOr_nil] at hmatch
      -- no match begins at the last character, so a name ends in front of it
      have hnone : m (lastOr previous s) (e :: (u ++ '\n' :: rest)) = none :=
        (misses_append_iff.1 hs).2.1
      have hname : isBlank e = true → continuesName (previous.toList ++ s).getLast? = true := by
        intro he
        have hearlier := hm.earlier he hmatch hnone
        cases previous <;> simpa [← lastOr_none] using hearlier
      rcases List.eq_nil_or_concat blanks with rfl | ⟨blanks, e', rfl⟩
      · obtain ⟨rfl, he⟩ := List.append_inj' ((List.append_assoc ..).trans heq) rfl
        obtain rfl := (List.cons.inj he).1
        have hend := hname (by decide)
        rcases List.eq_nil_or_concat s with rfl | ⟨s, d, rfl⟩
        · cases previous with
          | none => cases hend
          | some p => exact absurd (hprevious.symm.trans hend) Bool.false_ne_true
        · rw [List.concat_eq_append, ← List.append_assoc, List.getLast?_concat] at hend
          exact .inr ⟨s, d, by simp, hend⟩
      · rw [List.concat_eq_append, ← List.cons_append, ← List.append_assoc,
          ← List.append_assoc] at heq
        obtain ⟨hfront, he⟩ := List.append_inj' heq rfl
        obtain rfl := (List.cons.inj he).1
        have hend := hname (hb e (by simp))
        have hblanks : ∀ c ∈ blanks, isBlank c = true := fun c hc => hb c (by simp [hc])
        have hblank := continuesName_append_blanks (x := x ++ ['\n']) hblanks
          (by rw [List.getLast?_concat]; decide)
        rw [hfront, ← List.singleton_append, ← List.append_assoc, hblank] at hend
        cases hend
  · rintro (⟨rfl, rfl⟩ | ⟨x, d, rfl, _⟩)
    · exact ⟨[], [], by simp, rfl⟩
    · exact ⟨previous.toList ++ (x ++ [d]), [], by simp, by simp⟩

/-- **Where a replacement by line feeds leaves a blank line**: in front of a match that does
not take the line feed before it. -/
theorem Cuts.hasBlankLine_iff (hm : TakesLines m) (h : Cuts m previous t pieces)
    (hprevious : continuesName previous = false) (ht : ¬ HasBlankLine (previous.toList ++ t)) :
    HasBlankLine (previous.toList ++ join ['\n'] pieces) ↔
      ∃ front piece behind, pieces = front ++ piece :: behind ∧ behind ≠ [] ∧
        ((piece = [] ∧ (front = [] → previous = some '\n')) ∨ EndsInName piece) := by
  induction h with
  | @last previous s hs =>
    rw [join_singleton]
    refine iff_of_false ht ?_
    rintro ⟨front, piece, behind, heq, hne, _⟩
    have hlength := congrArg List.length heq
    have hpos := List.length_pos_of_ne_nil hne
    simp only [List.length_append, List.length_cons, List.length_nil] at hlength
    omega
  | @cut previous s u rest pieces hs hmatch hrest ih =>
    have hfront : ¬ HasBlankLine (previous.toList ++ s) := fun hblank =>
      ht (hblank.of_infix ⟨[], u ++ '\n' :: rest, by simp⟩)
    have hbehind := ih (by decide) fun hblank =>
      ht (hblank.of_infix ⟨previous.toList ++ s ++ u, [], by simp⟩)
    have hjoin : previous.toList ++ join ['\n'] (s :: pieces) =
        (previous.toList ++ s) ++ '\n' :: join ['\n'] pieces := by
      rw [join_cons _ _ hrest.ne_nil]
      simp
    rw [hjoin, hasBlankLine_append_feed_iff, or_iff_right hfront,
      hm.endsAtLine_iff hprevious hs hmatch]
    refine Iff.trans (or_congr_right hbehind) ⟨?_, ?_⟩
    · rintro (hhere | ⟨front, piece, behind, rfl, hne, hpiece⟩)
      · exact ⟨[], s, pieces, rfl, hrest.ne_nil, hhere.imp (And.imp_right fun h _ => h) id⟩
      · refine ⟨s :: front, piece, behind, rfl, hne, hpiece.imp (And.imp_right fun _ h => ?_) id⟩
        cases h
    · rintro ⟨front, piece, behind, heq, hne, hpiece⟩
      cases front with
      | nil =>
        obtain ⟨rfl, rfl⟩ := List.cons.inj heq
        exact .inl (hpiece.imp (And.imp_right fun h => h rfl) id)
      | cons first front =>
        obtain ⟨rfl, rfl⟩ := List.cons.inj heq
        exact .inr ⟨front, piece, behind, rfl, hne, hpiece.imp (And.imp_right fun _ _ => rfl) id⟩

end Text

/-! ## The two patterns of a removal -/

namespace Removal

open Text

/-- **Blanks and what follows them**, unless it continues a name: so much the two patterns of a
removal have in common. -/
theorem takesLines_of_skipBlanks? {p : Text → Option Text}
    (hp : ∀ {t rest}, p t = some rest → ∃ u, t = u ++ '\n' :: rest) :
    TakesLines fun previous t => if continuesName previous then none else skipBlanks? p t where
  feed := by
    intro previous t rest h
    split_ifs at h
    obtain ⟨blanks, v, _, rfl, hv⟩ := exists_of_skipBlanks? h
    obtain ⟨u, rfl⟩ := hp hv
    exact ⟨blanks ++ u, by simp⟩
  earlier := by
    intro previous c t rest hc hmatch hnone
    split_ifs at hmatch hnone with hname hprevious
    · exact hprevious
    · rw [skipBlanks?, if_pos hc, hmatch] at hnone
      cases hnone

theorem takesLines_line? (key : Text) : TakesLines (line? key) := by
  refine takesLines_of_skipBlanks? fun {t rest} h => ?_
  simp only [Option.bind_eq_bind, Option.bind_eq_some_iff, key?_eq_some_iff,
    afterLine?_eq_some_iff] at h
  obtain ⟨_, rfl, line, _, rfl⟩ := h
  exact ⟨key ++ ':' :: line, by simp⟩

theorem takesLines_object? (key : Text) : TakesLines (object? key) := by
  refine takesLines_of_skipBlanks? fun {t rest} h => ?_
  simp only [Option.bind_eq_bind, Option.bind_eq_some_iff, key?_eq_some_iff,
    afterLine?_eq_some_iff] at h
  obtain ⟨_, rfl, ⟨brace, v⟩, hv, ⟨body, w⟩, hw, line, _, rfl⟩ := h
  obtain ⟨gap, _, _, rfl⟩ := ContainerKind.throughBrace?_eq_some_iff.1 hv
  obtain ⟨rfl, _⟩ := Brace.body?_eq_some_iff.1 hw
  exact ⟨key ++ ':' :: (gap ++ '{' :: (body ++ '}' :: line)), by simp⟩

end Removal

namespace Container

open Text Removal

/-- **What a removal looks for** in a container: objects, where there is one to remove, and
otherwise lines. -/
def entryPattern (c : Container) (key : Text) : Option Char → Text → Option Text :=
  if replaceAll (object? key) ['\n'] none c.written ≠ c.written then object? key else line? key

theorem takesLines_entryPattern (c : Container) (key : Text) : TakesLines (c.entryPattern key) := by
  unfold entryPattern
  split
  · exact takesLines_object? key
  · exact takesLines_line? key

/-- A removal that succeeds replaces what its pattern matches. -/
theorem eq_of_withoutEntry {c : Container} {key w : Text} (h : c.withoutEntry key = .ok w) :
    w = replaceAll (c.entryPattern key) ['\n'] none c.written := by
  rw [withoutEntry_tireless] at h
  unfold entryPattern
  dsimp only at h
  split_ifs at h ⊢ with hobject hline
  · exact (Except.ok.inj h).symm
  · exact (Except.ok.inj h).symm

end Container

open Text in
/-- Where a removal under the tireless engine leaves a blank line. -/
theorem removeEntry_hasBlankLine_iff_tireless {kind : ContainerKind} {name key source text : Text}
    {c : Container} (hlocate : Container.locate kind name source = .ok c)
    (hc : ¬ HasBlankLine c.written) (h : removeEntry kind name key source = .ok text) :
    ∃ pieces, Cuts (c.entryPattern key) none c.written pieces ∧
      text = c.replace (join ['\n'] pieces) ∧
      (HasBlankLine (join ['\n'] pieces) ↔
        ∃ front piece behind, pieces = front ++ piece :: behind ∧ behind ≠ [] ∧
          ((piece = [] ∧ front ≠ []) ∨ EndsInName piece)) := by
  have hm := c.takesLines_entryPattern key
  rw [removeEntry_of_locate hlocate] at h
  obtain ⟨pieces, hpieces⟩ := hm.exists_cuts none c.written
  refine ⟨pieces, hpieces, ?_, ?_⟩
  · cases hw : c.withoutEntry key with
    | error e => rw [hw] at h; cases h
    | ok w =>
      rw [hw] at h
      rw [← hpieces.replaceAll_eq, ← Container.eq_of_withoutEntry hw]
      exact (Except.ok.inj h).symm
  · have hiff := hpieces.hasBlankLine_iff hm rfl hc
    simpa using hiff

open Text in
/-- **Where a removal leaves a blank line.** Of a container without blank lines, a removal
keeps the pieces between the entries it takes away and puts line feeds between them. There is
a blank line in what it leaves if and only if a piece in front of such an entry is empty, the
entry following another one directly, or ends in a name and a line feed, the entry before it
having no punctuation. -/
theorem removeEntry_hasBlankLine_iff [Engine] {kind : ContainerKind} {name key source text : Text}
    {c : Container} (hlocate : Container.locate kind name source = .ok c)
    (hc : ¬ HasBlankLine c.written) (h : removeEntry kind name key source = .ok text) :
    ∃ pieces, Cuts (c.entryPattern key) none c.written pieces ∧
      text = c.replace (join ['\n'] pieces) ∧
      (HasBlankLine (join ['\n'] pieces) ↔
        ∃ front piece behind, pieces = front ++ piece :: behind ∧ behind ≠ [] ∧
          ((piece = [] ∧ front ≠ []) ∨ EndsInName piece)) :=
  removeEntry_hasBlankLine_iff_tireless ((Container.isSteady_locate _ _ _).tireless_eq_ok hlocate)
    hc ((isSteady_removeEntry _ _ _ _).tireless_eq_ok h)

open Text in
theorem removeEntry_hasBlankLine_iff_unpunctuated :
    ∃ (c : Container) (pieces : List Text),
      Container.locate .property "x".toList "x: \x7b\n\ta: A\n\tk: 1,\n\x7d".toList = .ok c ∧
      ¬ HasBlankLine c.written ∧ Cuts (c.entryPattern "k".toList) none c.written pieces ∧
      "x: \x7b\n\ta: A\n\n\x7d".toList = c.replace (join ['\n'] pieces) ∧
      ∃ front piece behind, pieces = front ++ piece :: behind ∧ behind ≠ [] ∧
        ((piece = [] ∧ front ≠ []) ∨ EndsInName piece) := by
  let source := "x: \x7b\n\ta: A\n\tk: 1,\n\x7d".toList
  let c : Container := ⟨.property, "x".toList, [], "x: \x7b".toList, "\n\ta: A\n\tk: 1,\n".toList, []⟩
  have hlocate : Container.locate .property "x".toList source = .ok c := by
    decide +kernel
  have hc : ¬ HasBlankLine c.written := by
    decide +kernel
  have hremoved : removeEntry .property "x".toList "k".toList source =
      .ok "x: \x7b\n\ta: A\n\n\x7d".toList := by
    decide +kernel
  obtain ⟨pieces, hcuts, htext, hiff⟩ := removeEntry_hasBlankLine_iff hlocate hc hremoved
  refine ⟨c, pieces, hlocate, hc, hcuts, htext, hiff.1 ?_⟩
  have hjoin : join ['\n'] pieces = "x: \x7b\n\ta: A\n\n\x7d".toList := by
    simpa [Container.replace, c] using htext.symm
  rw [hjoin]
  decide

open Text in
/-- **An entry without punctuation keeps its line feed**, and the removal behind it adds
another one. -/
theorem removeEntry_behind_unpunctuated :
    ∃ (c : Container) (w : Text),
      Container.locate .property "x".toList "x: \x7b\n\ta: A\n\tk: 1,\n\x7d".toList = .ok c ∧
      ¬ HasBlankLine c.written ∧
      removeEntry .property "x".toList "k".toList "x: \x7b\n\ta: A\n\tk: 1,\n\x7d".toList =
        .ok (c.replace w) ∧
      HasBlankLine w :=
  ⟨⟨.property, "x".toList, [], "x: \x7b".toList, "\n\ta: A\n\tk: 1,\n".toList, []⟩,
    "x: \x7b\n\ta: A\n\n\x7d".toList, by decide +kernel, by decide +kernel, by decide +kernel,
    by decide +kernel⟩

end Fabula
