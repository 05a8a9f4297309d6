import Fabula.Proofs.Union.Pieces
import Fabula.Proofs.Union.Walls

/-!
# What dropping the placeholder leaves

The placeholder is dropped in two passes: first each one with a bar beside it, the bar before it
rather than the one behind, then the ones that are left. Both run over the whole right-hand
side. Here this is the same as to drop it from each alternative by itself, and to leave out
those that are nothing else (`Union.exists_stripped`).

That holds where no alternative shares a placeholder's bar with its neighbour: it is the
placeholder, or does not hold it, or holds it between two walls, such as the quotes of a literal
(`Union.IsSettled`). An alternative that holds the placeholder among other words, with nothing
but blanks between it and a bar, would lose it together with the bar, and two alternatives would
become one.

## The first pass

It is in one of two modes. As long as all it has read is placeholders, there is no alternative
for the next bar to be kept for, so that bar goes together with the placeholder in front of it
(`Union.unjoined_never`). Once an alternative is kept, the bar before a placeholder goes with
it, and the bar behind is kept for the alternative there (`Union.exists_kept_behind`). There is
one induction over the alternatives for each mode, and the first one passes into the second
where an alternative is kept.

In both of them an alternative is read by itself, whether there are others behind it or not
(`Union.unjoined_settled`). An alternative without the placeholder has no match in it, and a
match that began in the blanks at its end would have to be one with the next bar. One between
walls is not read across them.

## The second pass

So outside walls the second pass finds something to do only where there is nothing but the
placeholder. Inside walls it may find another one, and there it does to the whole what it does
to the alternative alone, because a bar does not touch the placeholder.
-/

namespace Fabula

namespace Union

variable {previous : Option Char} {p t w x front behind blanks : Text} {rest pieces : List Text}

/-! ## Pieces behind a text -/

/-- **Further pieces**, each behind its bar. -/
def bars (pieces : List Text) : Text :=
  pieces.flatMap fun p => '|' :: p

theorem bars_cons (p : Text) (rest : List Text) : bars (p :: rest) = '|' :: (p ++ bars rest) :=
  rfl

theorem join_cons_bars (p : Text) (rest : List Text) :
    Text.join ['|'] (p :: rest) = p ++ bars rest := by
  induction rest generalizing p with
  | nil => simp [bars]
  | cons q rest ih =>
    rw [Text.join_cons _ _ (List.cons_ne_nil _ _), ih, bars_cons, List.append_assoc]
    rfl

theorem dropWhile_bars (t : Text) (rest : List Text) :
    (t ++ bars rest).dropWhile isBlank = t.dropWhile isBlank ++ bars rest := by
  cases rest with
  | nil => rw [bars, List.flatMap_nil, List.append_nil, List.append_nil]
  | cons p rest => exact Text.dropWhile_append_cons (by decide) t (p ++ bars rest)

/-- Blanks do not touch the placeholder, nor does what does not stand in front of them. -/
theorem touches_blanks (hprevious : previous.any touchesNever = false)
    (hblanks : ∀ c ∈ blanks, isBlank c = true) :
    (Text.lastOr previous blanks).any touchesNever = false := by
  unfold Text.lastOr
  cases hlast : blanks.getLast? with
  | none => exact hprevious
  | some c => exact touchesNever_of_isBlank (hblanks c (List.mem_of_getLast? hlast))

/-- Pieces behind a text do not touch what it ends in. -/
theorem touches_bars (hbehind : ∀ c ∈ behind, isBlank c = true) (rest : List Text) :
    (behind ++ bars rest).head?.any touchesNever = false := by
  cases behind with
  | nil =>
    cases rest with
    | nil => rfl
    | cons p rest => exact (by decide : touchesNever '|' = false)
  | cons c behind => exact touchesNever_of_isBlank (hbehind c List.mem_cons_self)

/-- What is read in front of pieces is read without them. -/
theorem exists_of_never? {u : Text} (h : never? previous (t ++ bars rest) = some u) :
    ∃ z, never? previous t = some z := by
  obtain ⟨hprevious, heq, hu⟩ := never?_eq_some_iff.1 h
  cases rest with
  | nil =>
    rw [bars, List.flatMap_nil, List.append_nil] at heq
    exact ⟨u, never?_eq_some_iff.2 ⟨hprevious, heq, hu⟩⟩
  | cons q rest =>
    have hbar : '|' ∉ neverWord := by decide
    rcases Text.split_occurrence (x := []) hbar heq with ⟨z, hz, rfl⟩ | ⟨z, hz, _⟩
    · refine ⟨z, never?_eq_some_iff.2 ⟨hprevious, hz, ?_⟩⟩
      cases z with
      | nil => rfl
      | cons d z => exact hu
    · exact absurd hz.symm (List.append_ne_nil_of_right_ne_nil _ (List.cons_ne_nil _ _))

theorem exists_of_pipe? {u : Text} (hne : ∃ c ∈ t, isBlank c = false)
    (h : pipe? (t ++ bars rest) = some u) : ∃ z, pipe? t = some z ∧ u = z ++ bars rest := by
  have hdrop : t.dropWhile isBlank ≠ [] := by
    obtain ⟨c, hmem, hc⟩ := hne
    rw [Ne, List.dropWhile_eq_nil_iff]
    intro hall
    rw [hall c hmem] at hc
    cases hc
  obtain ⟨d, z, hz⟩ := List.exists_cons_of_ne_nil hdrop
  unfold pipe? at h ⊢
  rw [dropWhile_bars, hz, List.cons_append] at h
  rw [hz]
  split at h
  · rename_i r hr
    obtain ⟨rfl, rfl⟩ := List.cons.inj hr
    rw [dropWhile_bars] at h
    exact ⟨z.dropWhile isBlank, rfl, (Option.some.inj h).symm⟩
  · cases h

/-- **No placeholder with a bar is read** where a piece does not hold it, be there others
behind or not. -/
theorem joinedNever?_eq_none (hne : ∃ c ∈ w, isBlank c = false) (h : ¬HoldsNever (x ++ w)) :
    joinedNever? (Text.lastOr previous x) (w ++ bars rest) = none := by
  by_contra hsome
  obtain ⟨u, hu⟩ := Option.ne_none_iff_exists'.1 hsome
  unfold joinedNever? at hu
  split at hu
  · rename_i r hr
    obtain ⟨v, hv, hnever⟩ := Option.bind_eq_some_iff.1 hr
    obtain ⟨z, hz, rfl⟩ := exists_of_pipe? hne hv
    obtain ⟨r', hr'⟩ := exists_of_never? hnever
    have hjoined : joinedNever? (Text.lastOr previous x) w = some r' := by
      unfold joinedNever?
      rw [hz, Option.bind_some, hr']
    exact h (holdsNever_of_joinedNever? hjoined)
  · obtain ⟨v, hv, _⟩ := Option.bind_eq_some_iff.1 hu
    obtain ⟨z, hz⟩ := exists_of_never? hv
    obtain ⟨hprevious, rfl, hrest⟩ := never?_eq_some_iff.1 hz
    exact h ⟨x, z, rfl, touches_of_lastOr hprevious, hrest⟩

/-- Without a bar there is none beside a placeholder. -/
theorem misses_of_no_bar (h : '|' ∉ t) : Text.Misses joinedNever? previous t [] := by
  refine Text.misses_iff.2 fun x c y heq => ?_
  have hpipe : ∀ u, '|' ∉ u → pipe? u = none := by
    intro u hu
    by_contra hsome
    obtain ⟨r, hr⟩ := Option.ne_none_iff_exists'.1 hsome
    obtain ⟨_, _, _, rfl⟩ := pipe?_eq_some hr
    simp at hu
  have hcy : '|' ∉ c :: y := fun hmem => h (heq ▸ List.mem_append_right x hmem)
  unfold joinedNever?
  rw [List.append_nil, hpipe _ hcy, Option.bind_none]
  dsimp only
  cases hnever : never? (Text.lastOr previous x) (c :: y) with
  | none => rfl
  | some u =>
    obtain ⟨_, hsplit, _⟩ := never?_eq_some_iff.1 hnever
    rw [hsplit, List.mem_append, not_or] at hcy
    exact hpipe u hcy.2

/-- Blanks in front of a placeholder are kept where no bar stands before them. -/
theorem misses_blanks (hblanks : ∀ c ∈ blanks, isBlank c = true) (u : Text) :
    Text.Misses joinedNever? previous blanks (neverWord ++ u) := by
  refine Text.misses_iff.2 fun x c y heq => ?_
  have hcy : ∀ d ∈ c :: y, isBlank d = true :=
    fun d hd => hblanks d (heq ▸ List.mem_append_right x hd)
  have hpipe : pipe? (c :: y ++ (neverWord ++ u)) = none := by
    unfold pipe?
    rw [show c :: y ++ (neverWord ++ u) = c :: y ++ 'n' :: ("ever".toList ++ u) from rfl,
      Text.dropWhile_blanks _ hcy (by decide)]
    rfl
  have hnever : never? (Text.lastOr previous x) (c :: y ++ (neverWord ++ u)) = none := by
    by_contra hsome
    obtain ⟨r, hr⟩ := Option.ne_none_iff_exists'.1 hsome
    obtain ⟨_, hsplit, _⟩ := never?_eq_some_iff.1 hr
    exact Text.ne_of_isBlank (hcy c List.mem_cons_self) (by decide) (List.cons.inj hsplit).1
  unfold joinedNever?
  rw [hpipe, Option.bind_none, hnever]
  rfl

/-! ## The first pass -/

/-- What the first pass does to a text that `previous` stands in front of. -/
abbrev unjoined (previous : Option Char) (t : Text) : Text :=
  Text.replaceAll joinedNever? [] previous t

/-- **A piece without the placeholder is kept** behind what does not end in a blank. The
blanks at its end are read with the next bar. -/
theorem unjoined_piece (hx : ∀ c, x.getLast? = some c → isBlank c = false) (h : ¬HoldsNever (x ++ p))
    (previous : Option Char) (rest : List Text) :
    ∃ q behind previous', (∀ c ∈ behind, isBlank c = true) ∧
      (∀ back : Text, (∀ c ∈ back, isBlank c = true) → (q ++ back).trim = p.trim) ∧
      unjoined previous (x ++ (p ++ bars rest)) =
        x ++ (q ++ unjoined previous' (behind ++ bars rest)) := by
  obtain ⟨behind, hbehind, heq⟩ := Text.exists_trimRight p
  have htrim : ∀ back : Text, (∀ c ∈ back, isBlank c = true) →
      Text.trim (Text.trimRight p ++ back) = Text.trim (Text.trimRight p) := fun back hback =>
    Text.trim_between (t := Text.trimRight p) (List.forall_mem_nil _) hback
  refine ⟨Text.trimRight p, behind, Text.lastOr previous (x ++ Text.trimRight p), hbehind,
    fun back hback => ?_, ?_⟩
  · conv_rhs => rw [heq]
    rw [htrim back hback, htrim behind hbehind]
  · have hmisses : Text.Misses joinedNever? previous (x ++ Text.trimRight p) (behind ++ bars rest) := by
      refine Text.misses_iff.2 fun y c z hyz => ?_
      -- what is left of the piece ends in a character that is not blank
      obtain ⟨d, hd⟩ := Option.isSome_iff_exists.1
        (List.getLast?_isSome.2 (List.cons_ne_nil c z))
      have hlast : isBlank d = false := by
        have hend := congrArg List.getLast? hyz
        rw [List.getLast?_append, List.getLast?_append, hd, Option.some_or] at hend
        cases hright : (Text.trimRight p).getLast? with
        | none => exact hx d (by rwa [hright, Option.none_or] at hend)
        | some e =>
          rw [hright] at hend
          obtain rfl := Option.some.inj hend
          exact Text.isBlank_getLast?_trimRight hright
      rw [← List.append_assoc]
      refine joinedNever?_eq_none ⟨d, List.mem_append_left _ (List.mem_of_getLast? hd), hlast⟩ ?_
      rwa [← List.append_assoc, ← hyz, List.append_assoc, ← heq]
    have hsplit : x ++ (p ++ bars rest) = (x ++ Text.trimRight p) ++ (behind ++ bars rest) := by
      conv_lhs => rw [heq]
      simp
    rw [hsplit, unjoined, Text.replaceAll_append hmisses, List.append_assoc]

/-- Nothing is dropped in front of a wall where only blanks and bars stand. -/
theorem unjoined_wall {c : Char} (hc : IsWall c) (hx : ∀ d ∈ x, isBlank d = true ∨ d = '|')
    (previous : Option Char) (t : Text) :
    unjoined previous (x ++ c :: t) = x ++ c :: unjoined (some c) t := by
  have hplain : ¬HoldsNever (x ++ [c]) := by
    rintro ⟨y, z, hyz, -, -⟩
    have hmem : 'n' ∈ x ++ [c] := by
      rw [hyz]
      simp [neverWord]
    rcases List.mem_append.1 hmem with hmem | hmem
    · rcases hx _ hmem with h | h <;> exact absurd h (by decide)
    · exact hc.not_word (List.mem_singleton.1 hmem ▸ by decide)
  rw [unjoined, Text.replaceAll_of_stopsAt (stopsAt_joinedNever? hc),
    Text.replaceAll_of_misses (misses_joinedNever? hplain)]
  simp

/-- **A piece that begins and ends with a wall** is read by itself, be there others around
it or not. -/
theorem unjoined_sealed (hx : ∀ c ∈ x, isBlank c = true ∨ c = '|') (h : IsSealed p.trim)
    (previous : Option Char) (rest : List Text) :
    ∃ q behind previous', (∀ c ∈ behind, isBlank c = true) ∧
      (∀ back : Text, (∀ c ∈ back, isBlank c = true) → (q ++ back).trim = unjoined none p.trim) ∧
      unjoined previous (x ++ (p ++ bars rest)) =
        x ++ (q ++ unjoined previous' (behind ++ bars rest)) := by
  obtain ⟨c, inner, d, hc, hd, hp⟩ := h
  obtain ⟨front, behind, hfront, hbehind, heq⟩ := Text.exists_trim p
  obtain ⟨inner', _, hinner⟩ :=
    Text.exists_replaceAll_of_stopsAt (stopsAt_joinedNever? hd) (some c) inner
  have hown : unjoined none p.trim = c :: (inner' ++ [d]) := by
    have hwall := unjoined_wall (x := []) hc (List.forall_mem_nil _) none (inner ++ [d])
    rw [hp]
    exact hwall.trans (congrArg (c :: ·) ((hinner []).trans (by rw [Text.replaceAll_nil])))
  refine ⟨front ++ (c :: (inner' ++ [d])), behind, some d, hbehind, fun back hback => ?_, ?_⟩
  · rw [hown, List.append_assoc]
    exact Text.trim_blanks (List.cons_ne_nil _ _) (trim_sealed hc hd inner') hfront hback
  · have hlead : ∀ e ∈ x ++ front, isBlank e = true ∨ e = '|' :=
      List.forall_mem_append.2 ⟨hx, fun e he => .inl (hfront e he)⟩
    have hsplit : x ++ (p ++ bars rest) =
        (x ++ front) ++ c :: (inner ++ d :: (behind ++ bars rest)) := by
      conv_lhs => rw [heq, hp]
      simp
    rw [hsplit, unjoined_wall hc hlead, unjoined, hinner]
    simp

/-! ## Which pieces are read by themselves -/

/-- **A piece in which the placeholder stands as all of it, or between walls, or not at
all.** -/
def IsSettled (p : Text) : Prop :=
  HoldsNever p → p.trim = neverWord ∨ IsSealed p.trim

theorem isSettled_trim : IsSettled p.trim ↔ IsSettled p := by
  unfold IsSettled
  rw [holdsNever_trim, Text.trim_trim]

/-- What may stand in front of a piece: nothing, or a bar behind blanks. -/
def IsLead (x : Text) : Prop :=
  x = [] ∨ ∃ blanks, (∀ c ∈ blanks, isBlank c = true) ∧ x = blanks ++ ['|']

/-- **A settled piece is read by itself**, and what the first pass leaves of it is what it
leaves of the piece alone. -/
theorem unjoined_settled (hx : IsLead x) (h : IsSettled p) (hne : p.trim ≠ neverWord)
    (previous : Option Char) (rest : List Text) :
    ∃ q behind previous', (∀ c ∈ behind, isBlank c = true) ∧
      (∀ back : Text, (∀ c ∈ back, isBlank c = true) → (q ++ back).trim = unjoined none p.trim) ∧
      unjoined previous (x ++ (p ++ bars rest)) =
        x ++ (q ++ unjoined previous' (behind ++ bars rest)) := by
  by_cases hholds : HoldsNever p
  · refine unjoined_sealed (fun c hc => ?_) ((h hholds).resolve_left hne) previous rest
    rcases hx with rfl | ⟨blanks, hblanks, rfl⟩
    · exact absurd hc List.not_mem_nil
    · exact (List.mem_append.1 hc).imp (hblanks c) List.mem_singleton.1
  · have hown : unjoined none p.trim = p.trim :=
      Text.replaceAll_of_misses (misses_joinedNever? (holdsNever_trim.not.2 hholds))
    rw [hown]
    refine unjoined_piece (fun c hc => ?_) ?_ previous rest
    · rcases hx with rfl | ⟨blanks, _, rfl⟩
      · cases hc
      · rw [List.getLast?_concat] at hc
        obtain rfl := Option.some.inj hc
        decide
    · rcases hx with rfl | ⟨blanks, hblanks, rfl⟩
      · exact hholds
      · rw [List.append_assoc, List.singleton_append, holdsNever_append_cons (by decide)]
        exact not_or.2 ⟨not_holdsNever_of_blank hblanks, hholds⟩

/-! ## Pieces that are dropped -/

/-- A placeholder goes with the bar before it. -/
theorem joinedNever?_behind (previous : Option Char) (rest : List Text) (hblanks : ∀ c ∈ blanks, isBlank c = true)
    (hfront : ∀ c ∈ front, isBlank c = true) (hbehind : ∀ c ∈ behind, isBlank c = true) :
    joinedNever? previous (blanks ++ '|' :: (front ++ (neverWord ++ (behind ++ bars rest)))) =
      some (behind ++ bars rest) := by
  have hpipe : pipe? (blanks ++ '|' :: (front ++ (neverWord ++ (behind ++ bars rest)))) =
      some (neverWord ++ (behind ++ bars rest)) := by
    unfold pipe?
    rw [Text.dropWhile_blanks _ hblanks (by decide)]
    exact congrArg some (Text.dropWhile_blanks (c := 'n') _ hfront (by decide))
  unfold joinedNever?
  rw [hpipe, Option.bind_some, never?_eq_some_iff.2 ⟨rfl, rfl, touches_bars hbehind rest⟩]

/-- A placeholder that is the first alternative goes with the bar behind it. -/
theorem joinedNever?_front (p : Text) (rest : List Text) (hprevious : previous.any touchesNever = false)
    (hbehind : ∀ c ∈ behind, isBlank c = true) :
    joinedNever? previous (neverWord ++ (behind ++ bars (p :: rest))) =
      some (Text.trimLeft p ++ bars rest) := by
  have hpipe : pipe? (neverWord ++ (behind ++ bars (p :: rest))) = none := rfl
  have hbar : pipe? (behind ++ bars (p :: rest)) = some (Text.trimLeft p ++ bars rest) := by
    unfold pipe?
    rw [bars_cons, Text.dropWhile_blanks _ hbehind (by decide)]
    exact congrArg some (dropWhile_bars p rest)
  unfold joinedNever?
  rw [hpipe, Option.bind_none, never?_eq_some_iff.2 ⟨hprevious, rfl, touches_bars hbehind _⟩,
    Option.bind_some, hbar]

/-- **Placeholders that come first** go with the bar behind them. -/
theorem unjoined_never (hprevious : previous.any touchesNever = false) (hp : p.trim = neverWord)
    (q : Text) (rest : List Text) :
    ∃ front previous', (∀ c ∈ front, isBlank c = true) ∧ previous'.any touchesNever = false ∧
      unjoined previous (p ++ bars (q :: rest)) =
        front ++ unjoined previous' (Text.trimLeft q ++ bars rest) := by
  obtain ⟨front, behind, hfront, hbehind, heq⟩ := Text.exists_trim p
  obtain ⟨lead, hlead, hq⟩ := Text.eq_blanks_append q
  have hsplit : p ++ bars (q :: rest) = front ++ (neverWord ++ (behind ++ bars (q :: rest))) := by
    conv_lhs => rw [heq, hp]
    simp
  have hread : neverWord ++ (behind ++ bars (q :: rest)) =
      neverWord ++ (behind ++ '|' :: lead) ++ (Text.trimLeft q ++ bars rest) := by
    rw [bars_cons]
    conv_lhs => rw [hq]
    simp [Text.trimLeft]
  have hmatch := joinedNever?_front q rest (touches_blanks hprevious hfront) hbehind
  rw [hread] at hmatch
  refine ⟨front, Text.lastOr (Text.lastOr previous front) (neverWord ++ (behind ++ '|' :: lead)),
    hfront, ?_, ?_⟩
  · rw [Text.lastOr_append, Text.lastOr_append, Text.lastOr_cons]
    exact touches_blanks (by decide) hlead
  · rw [hsplit, unjoined, Text.replaceAll_append (misses_blanks hfront _), hread,
      Text.replaceAll_of_match (by simp [neverWord]) hmatch, List.nil_append]

/-- The pieces that are not the placeholder, without the blanks around them. -/
def others (pieces : List Text) : List Text :=
  (pieces.map Text.trim).filter (· ≠ neverWord)

theorem others_cons_never (h : p.trim = neverWord) : others (p :: rest) = others rest := by
  rw [others, List.map_cons, List.filter_cons_of_neg (by simp [h])]
  rfl

theorem others_cons (h : p.trim ≠ neverWord) : others (p :: rest) = p.trim :: others rest := by
  rw [others, List.map_cons, List.filter_cons_of_pos (by simp [h])]
  rfl

/-- **Behind an alternative that is kept**, the others are kept with their bars. -/
theorem exists_kept_behind (previous : Option Char) (hblanks : ∀ c ∈ blanks, isBlank c = true)
    (h : ∀ p ∈ rest, IsSettled p) :
    ∃ back kept, (∀ c ∈ back, isBlank c = true) ∧
      kept.map Text.trim = (others rest).map (unjoined none) ∧
      unjoined previous (blanks ++ bars rest) = back ++ bars kept := by
  induction rest generalizing blanks previous with
  | nil =>
    refine ⟨blanks, [], hblanks, rfl, Text.replaceAll_of_misses (misses_joinedNever? ?_)⟩
    rw [show blanks ++ bars [] = blanks from List.append_nil blanks]
    exact not_holdsNever_of_blank hblanks
  | cons p rest ih =>
    obtain ⟨hp, hrest⟩ := List.forall_mem_cons.1 h
    by_cases hnever : p.trim = neverWord
    · obtain ⟨front, behind, hfront, hbehind, heq⟩ := Text.exists_trim p
      obtain ⟨back, kept, hback, hkept, hunjoined⟩ :=
        ih (Text.lastOr previous (blanks ++ '|' :: (front ++ neverWord))) hbehind hrest
      refine ⟨back, kept, hback, by rw [others_cons_never hnever, hkept], ?_⟩
      have hmatch : joinedNever? previous
          ((blanks ++ '|' :: (front ++ neverWord)) ++ (behind ++ bars rest)) =
            some (behind ++ bars rest) := by
        simpa using joinedNever?_behind previous rest hblanks hfront hbehind
      have hsplit : blanks ++ bars (p :: rest) =
          (blanks ++ '|' :: (front ++ neverWord)) ++ (behind ++ bars rest) := by
        rw [bars_cons, heq, hnever]
        simp
      rw [hsplit, unjoined, Text.replaceAll_of_match (by simp) hmatch, List.nil_append]
      exact hunjoined
    · obtain ⟨q, behind, previous', hbehind, htrim, hpiece⟩ :=
        unjoined_settled (.inr ⟨blanks, hblanks, rfl⟩) hp hnever previous rest
      obtain ⟨back, kept, hback, hkept, hunjoined⟩ := ih previous' hbehind hrest
      refine ⟨blanks, (q ++ back) :: kept, hblanks, ?_, ?_⟩
      · rw [others_cons hnever, List.map_cons, List.map_cons, htrim back hback, hkept]
      · have hsplit : blanks ++ bars (p :: rest) = (blanks ++ ['|']) ++ (p ++ bars rest) := by
          rw [bars_cons]
          simp
        rw [hsplit, hpiece, hunjoined, bars_cons]
        simp

/-- An alternative that comes first is kept, and with it those behind. -/
theorem exists_kept_of_ne (previous : Option Char) (hne : p.trim ≠ neverWord)
    (h : ∀ q ∈ p :: rest, IsSettled q) :
    ∃ kept, kept ≠ [] ∧ kept.map Text.trim = (others (p :: rest)).map (unjoined none) ∧
      unjoined previous (p ++ bars rest) = Text.join ['|'] kept := by
  obtain ⟨hp, hrest⟩ := List.forall_mem_cons.1 h
  obtain ⟨q, behind, previous', hbehind, htrim, hpiece⟩ :=
    unjoined_settled (x := []) (.inl rfl) hp hne previous rest
  obtain ⟨back, kept, hback, hkept, hunjoined⟩ := exists_kept_behind previous' hbehind hrest
  refine ⟨(q ++ back) :: kept, List.cons_ne_nil _ _, ?_, ?_⟩
  · rw [others_cons hne, List.map_cons, List.map_cons, htrim back hback, hkept]
  · rw [List.nil_append, List.nil_append] at hpiece
    rw [hpiece, hunjoined, join_cons_bars, List.append_assoc]

/-- **From the start**, the first pass leaves the other alternatives, or else the last of the
placeholders. -/
theorem exists_kept (previous : Option Char) (hprevious : previous.any touchesNever = false)
    (h : ∀ q ∈ p :: rest, IsSettled q) :
    ∃ kept, kept.map Text.trim = (others (p :: rest)).map (unjoined none) ∧
      (unjoined previous (p ++ bars rest)).trim =
        if kept = [] then neverWord else (Text.join ['|'] kept).trim := by
  induction rest generalizing p previous with
  | nil =>
    by_cases hnever : p.trim = neverWord
    · refine ⟨[], by rw [others_cons_never hnever]; rfl, ?_⟩
      have hbar : '|' ∉ p := by
        obtain ⟨front, behind, hfront, hbehind, heq⟩ := Text.exists_trim p
        rw [heq, hnever]
        simp [Text.not_mem_of_blank hfront (c := '|') (by decide),
          Text.not_mem_of_blank hbehind (c := '|') (by decide), neverWord]
      rw [show p ++ bars [] = p from List.append_nil p, unjoined,
        Text.replaceAll_of_misses (misses_of_no_bar hbar), if_pos rfl, hnever]
    · obtain ⟨kept, hne, hkept, hunjoined⟩ := exists_kept_of_ne previous hnever h
      exact ⟨kept, hkept, by rw [hunjoined, if_neg hne]⟩
  | cons q rest ih =>
    by_cases hnever : p.trim = neverWord
    · have hq : Text.trim (Text.trimLeft q) = q.trim := by
        unfold Text.trim
        rw [Text.trimLeft_trimLeft]
      have hothers : ∀ q' ∈ Text.trimLeft q :: rest, IsSettled q' := by
        obtain ⟨-, hq', hrest⟩ := (List.forall_mem_cons.1 h).imp_right List.forall_mem_cons.1
        refine List.forall_mem_cons.2 ⟨?_, hrest⟩
        rwa [← isSettled_trim, hq, isSettled_trim]
      obtain ⟨front, previous', hfront, hprevious', hunread⟩ :=
        unjoined_never hprevious hnever q rest
      obtain ⟨kept, hkept, hunjoined⟩ := ih previous' hprevious' hothers
      refine ⟨kept, ?_, ?_⟩
      · rw [others_cons_never hnever, hkept, others, others, List.map_cons, List.map_cons, hq]
      · have htrim := Text.trim_between (t := unjoined previous' (Text.trimLeft q ++ bars rest)) hfront
          (List.forall_mem_nil _)
        rw [List.append_nil] at htrim
        rw [hunread, htrim, hunjoined]
    · obtain ⟨kept, hne, hkept, hunjoined⟩ := exists_kept_of_ne previous hnever h
      exact ⟨kept, hkept, by rw [hunjoined, if_neg hne]⟩

/-! ## Both passes -/

/-- What remains of the placeholder goes in the second pass. -/
theorem trim_unread_eq_nil (h : t.trim = neverWord) : (unread t).trim = [] := by
  rw [← trim_unread, h, unread_neverWord]
  rfl

/-- **Without the placeholder, a union is what its other alternatives are put together to.**
What is left of each of them is what is left of it alone. -/
theorem exists_stripped (hne : pieces ≠ []) (h : ∀ p ∈ pieces, IsSettled p) :
    ∃ kept, kept.map Text.trim = (others pieces).map stripped ∧
      stripped (Text.join ['|'] pieces) = (Text.join ['|'] kept).trim := by
  obtain ⟨p, rest, rfl⟩ := List.exists_cons_of_ne_nil hne
  obtain ⟨kept, hkept, hunjoined⟩ := exists_kept none rfl h
  rw [← join_cons_bars] at hunjoined
  refine ⟨kept.map unread, ?_, ?_⟩
  · have htrim : Text.trim ∘ unread = (Text.trim ∘ unread) ∘ Text.trim := by
      funext t
      exact (trim_unread t).symm
    rw [List.map_map, htrim, ← List.map_map, hkept, List.map_map]
    rfl
  · show (unread (unjoined none _)).trim = _
    rw [← unread_join]
    by_cases hnil : kept = []
    · rw [if_pos hnil] at hunjoined
      rw [hnil, trim_unread_eq_nil hunjoined, Text.join_nil, unread, Text.replaceAll_nil]
      rfl
    · rw [if_neg hnil] at hunjoined
      rw [← trim_unread, hunjoined, trim_unread]

/-- What does not hold the placeholder has nothing to lose. -/
theorem map_stripped_others (h : ∀ p ∈ pieces, HoldsNever p → p.trim = neverWord) :
    (others pieces).map stripped = others pieces := by
  have hsame : ∀ t ∈ others pieces, stripped t = t := by
    intro t ht
    obtain ⟨hpiece, hnever⟩ := List.mem_filter.1 ht
    obtain ⟨p, hp, rfl⟩ := List.mem_map.1 hpiece
    refine (stripped_eq_self_iff (Text.trim_trim p)).2 ?_
    rw [holdsNever_trim]
    exact fun hholds => of_decide_eq_true hnever (h p hp hholds)
  rw [List.map_congr_left hsame, List.map_id']

end Union

end Fabula
