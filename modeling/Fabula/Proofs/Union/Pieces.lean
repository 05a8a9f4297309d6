import Mathlib.Data.List.Induction
import Fabula.Proofs.Union.Extension

/-!
# A union put together from alternatives

Cutting a text and putting its alternatives together gives the text back, whatever it is
(`Union.join_alternatives`). The other way round it matters where the scan stands at each bar: a
text is cut between two pieces when the first of them ends outside quotes and brackets, and
nowhere else when no piece has a bar at the top. Nothing is asked of the end of the last piece,
since no bar follows it (`Union.AreAlternatives`).

The alternatives of any text are such pieces (`Union.areAlternatives_alternatives`), and so are
some of them. An edit that takes alternatives out or puts whole ones in (`Union.IsAlternative`)
is therefore one of the union: what it leaves is cut into the pieces it was put together from
(`Union.AreAlternatives.alternatives_join`).

## Behind a bar

The proof reads the pieces one after the other, and each of them is read from the state behind a
bar. That state is at the top, and it differs from the one at the start in the character before
it, which is a bar. Only an `=` before it could make a difference, by an arrow, so a piece is
read behind a bar as it is read at the start (`Union.go_eq_start`).

## Blanks

The blanks around an alternative are part of it, and say nothing: no blank is a quote, a bracket
or a bar, so both conditions are about the trimmed text (`Union.isAlternative_trim`). The last
piece may end inside a quote, and then the blanks behind it are inside as well, but they still
cut nothing.
-/

namespace Fabula

namespace Union

open ScanState

variable {s : ScanState} {p t before behind : Text} {c : Char} {pieces : List Text}

/-! ## Scanning on behind a bar or a blank -/

theorem atTop_after_iff_start (hs : s.atTop = true) (hprevious : s.previous ≠ '=') :
    (s.after t).atTop = true ↔ EndsOutside t := by
  cases t with
  | nil => exact iff_of_true hs rfl
  | cons c t => rw [EndsOutside, after_cons, after_cons, next_eq_start hs hprevious]

theorem go_eq_start (hs : s.atTop = true) (hprevious : s.previous ≠ '=') :
    alternatives.go s t = alternatives t := by
  cases t with
  | nil => rfl
  | cons c t =>
    rw [alternatives, alternatives.go, alternatives.go, next_eq_start hs hprevious, hs]
    rfl

/-- What opened a literal is a quote. -/
theorem isQuote_of_after {q : Char} (h : (ScanState.start.after t).quote = some q) :
    isQuote q = true := by
  have hstep : ∀ (s : ScanState) (c : Char), (∀ q, s.quote = some q → isQuote q = true) →
      ∀ q, (s.next c).quote = some q → isQuote q = true := by
    intro s c hs q hq
    unfold next at hq
    split at hq
    · rename_i open? hopen
      dsimp only at hq
      split_ifs at hq
      exact hs q (hopen.trans hq)
    · split_ifs at hq with hc
      obtain rfl := Option.some.inj hq
      exact hc
  have hrun : ∀ (t : Text) (s : ScanState), (∀ q, s.quote = some q → isQuote q = true) →
      ∀ q, (s.after t).quote = some q → isQuote q = true := by
    intro t
    induction t with
    | nil => exact fun s hs => hs
    | cons c t ih => exact fun s hs => ih (s.next c) (hstep s c hs)
  exact hrun t .start (fun q hq => by cases hq) q h

/-- **A blank changes nothing** but the character before. -/
theorem next_blank (hs : ∀ q, s.quote = some q → isQuote q = true) (hc : isBlank c = true) :
    s.next c = { s with previous := c } := by
  have hne : ∀ d : Char, isBlank d = false → c ≠ d := fun d => Text.ne_of_isBlank hc
  have hquote : isQuote c = false := by
    simp [isQuote, hne '\'' (by decide), hne '"' (by decide), hne '\x60' (by decide)]
  have hopens : opens c = false := by
    simp [opens, hne '(' (by decide), hne '[' (by decide), hne '{' (by decide), hne '<' (by decide)]
  have hcloses : closes c = false := by
    simp [closes, hne ')' (by decide), hne ']' (by decide), hne '}' (by decide), hne '>' (by decide)]
  obtain ⟨quote, depth, previous⟩ := s
  unfold next
  cases quote with
  | none => simp [hquote, hopens, hcloses]
  | some q =>
    have hq : c ≠ q := by
      rintro rfl
      rw [hs c rfl] at hquote
      cases hquote
    simp [hq]

/-! ## Blanks around a text -/

theorem next_start_blank (hc : isBlank c = true) : ScanState.start.next c = ⟨none, 0, c⟩ :=
  next_blank (fun q hq => by cases hq) hc

theorem endsOutside_between (hbefore : ∀ c ∈ before, isBlank c = true)
    (hbehind : ∀ c ∈ behind, isBlank c = true) :
    EndsOutside (before ++ (t ++ behind)) ↔ EndsOutside t := by
  induction before with
  | nil =>
    rw [List.nil_append]
    induction behind using List.reverseRecOn with
    | nil => rw [List.append_nil]
    | append_singleton behind c ih =>
      obtain ⟨hbehind, hc⟩ := List.forall_mem_append.1 hbehind
      rw [← ih hbehind, EndsOutside, EndsOutside, ← List.append_assoc, after_append, after_cons,
        after_nil, next_blank (fun q => isQuote_of_after) (hc c List.mem_cons_self)]
      rfl
  | cons c before ih =>
    obtain ⟨hc, hbefore⟩ := List.forall_mem_cons.1 hbefore
    rw [← ih hbefore, EndsOutside, List.cons_append, after_cons, next_start_blank hc]
    exact atTop_after_iff_start rfl (Text.ne_of_isBlank hc (by decide))

theorem isUncut_between (hbefore : ∀ c ∈ before, isBlank c = true)
    (hbehind : ∀ c ∈ behind, isBlank c = true) :
    IsUncut .start (before ++ (t ++ behind)) ↔ IsUncut .start t := by
  induction before with
  | nil =>
    have hbar : '|' ∉ behind := Text.not_mem_of_blank hbehind (by decide)
    constructor
    · intro h x y heq
      exact h x (y ++ behind) (by rw [List.nil_append, heq]; simp)
    · intro h x y heq
      obtain ⟨z, hz⟩ := Text.in_front_of hbar heq
      exact h x z hz
  | cons c before ih =>
    obtain ⟨hc, hbefore⟩ := List.forall_mem_cons.1 hbefore
    have hbar : (c == '|') = false := beq_eq_false_iff_ne.2 (Text.ne_of_isBlank hc (by decide))
    have hprevious : c ≠ '=' := Text.ne_of_isBlank hc (by decide)
    rw [← ih hbefore, List.cons_append, isUncut_cons_iff, next_start_blank hc, hbar,
      isUncut_iff_start rfl hprevious]
    exact and_iff_right rfl

/-- A character that is no bar, behind a text, goes to its last alternative. -/
theorem go_concat (hc : c ≠ '|') (s : ScanState) (t : Text) :
    ∃ pieces p, alternatives.go s t = pieces ++ [p] ∧
      alternatives.go s (t ++ [c]) = pieces ++ [p ++ [c]] := by
  induction t generalizing s with
  | nil =>
    refine ⟨[], [], rfl, go_cons ?_ rfl⟩
    rw [beq_eq_false_iff_ne.2 hc]
    rfl
  | cons d t ih =>
    obtain ⟨pieces, p, hold, hnew⟩ := ih (s.next d)
    cases hd : d == '|' && s.atTop with
    | true =>
      rw [Bool.and_eq_true, beq_iff_eq] at hd
      obtain ⟨rfl, hs⟩ := hd
      exact ⟨[] :: pieces, p, by rw [go_cut hs, hold]; rfl, by rw [List.cons_append, go_cut hs, hnew]; rfl⟩
    | false =>
      cases pieces with
      | nil => exact ⟨[], d :: p, go_cons hd hold, go_cons hd hnew⟩
      | cons first pieces => exact ⟨(d :: first) :: pieces, p, go_cons hd hold, go_cons hd hnew⟩

/-- **Blanks around a union are blanks around its alternatives.** -/
theorem map_trim_between (hbefore : ∀ c ∈ before, isBlank c = true)
    (hbehind : ∀ c ∈ behind, isBlank c = true) :
    (alternatives (before ++ (t ++ behind))).map Text.trim = (alternatives t).map Text.trim := by
  induction before with
  | nil =>
    rw [List.nil_append]
    induction behind using List.reverseRecOn with
    | nil => rw [List.append_nil]
    | append_singleton behind c ih =>
      obtain ⟨hbehind, hc⟩ := List.forall_mem_append.1 hbehind
      have hblank := hc c List.mem_cons_self
      obtain ⟨pieces, p, hold, hnew⟩ :=
        go_concat (Text.ne_of_isBlank hblank (by decide)) .start (t ++ behind)
      have htrim : Text.trim (p ++ [c]) = Text.trim p := Text.trim_between (t := p) (List.forall_mem_nil _) hc
      rw [← ih hbehind, ← List.append_assoc, alternatives, alternatives, hold, hnew, List.map_append,
        List.map_append, List.map_singleton, List.map_singleton, htrim]
  | cons c before ih =>
    obtain ⟨hc, hbefore⟩ := List.forall_mem_cons.1 hbefore
    have hbar : (c == '|' && ScanState.start.atTop) = false := by
      rw [beq_eq_false_iff_ne.2 (Text.ne_of_isBlank hc (by decide))]
      rfl
    obtain ⟨p, pieces, hp⟩ :=
      List.exists_cons_of_ne_nil (go_ne_nil .start (before ++ (t ++ behind)))
    have hprevious : c ≠ '=' := Text.ne_of_isBlank hc (by decide)
    have htrim : Text.trim (c :: p) = Text.trim p := by
      rw [← Text.trim_between (t := p) (List.forall_mem_singleton.2 hc) (List.forall_mem_nil _)]
      rw [List.append_nil]
      rfl
    have hgo : alternatives.go (ScanState.start.next c) (before ++ (t ++ behind)) = p :: pieces := by
      rw [next_start_blank hc, go_eq_start rfl hprevious]
      exact hp
    rw [← ih hbefore, List.cons_append, alternatives, alternatives, go_cons hbar hgo, hp, List.map_cons,
      List.map_cons, htrim]

/-! ## Alternatives -/

/-- **What may be an alternative**: a text that ends outside quotes and brackets and has no
bar at the top. -/
structure IsAlternative (p : Text) : Prop where
  uncut : IsUncut .start p
  closed : EndsOutside p

theorem isUncut_trim : IsUncut .start p.trim ↔ IsUncut .start p := by
  obtain ⟨before, behind, hbefore, hbehind, hp⟩ := Text.exists_trim p
  conv_rhs => rw [hp]
  exact (isUncut_between hbefore hbehind).symm

theorem endsOutside_trim : EndsOutside p.trim ↔ EndsOutside p := by
  obtain ⟨before, behind, hbefore, hbehind, hp⟩ := Text.exists_trim p
  conv_rhs => rw [hp]
  exact (endsOutside_between hbefore hbehind).symm

theorem isAlternative_trim : IsAlternative p.trim ↔ IsAlternative p :=
  ⟨fun h => ⟨isUncut_trim.1 h.uncut, endsOutside_trim.1 h.closed⟩,
    fun h => ⟨isUncut_trim.2 h.uncut, endsOutside_trim.2 h.closed⟩⟩

/-- **What the alternatives of a text are**, whatever its quotes and brackets: none has a
bar at the top, and each one with another behind it ends outside. Only the last may be
left open. -/
structure AreAlternatives (pieces : List Text) : Prop where
  uncut : ∀ p ∈ pieces, IsUncut .start p
  closed : pieces.Pairwise fun p _ => EndsOutside p

namespace AreAlternatives

theorem of_forall (h : ∀ p ∈ pieces, IsAlternative p) : AreAlternatives pieces where
  uncut p hp := (h p hp).uncut
  closed := List.pairwise_of_forall_mem_list fun p hp _ _ => (h p hp).closed

/-- To leave some out does not open the others. -/
theorem sublist (h : AreAlternatives pieces) {others : List Text} (hs : others.Sublist pieces) :
    AreAlternatives others where
  uncut p hp := h.uncut p (hs.subset hp)
  closed := h.closed.sublist hs

end AreAlternatives

/-- All but the last end outside. -/
theorem areAlternatives_iff : AreAlternatives pieces ↔
    (∀ p ∈ pieces, IsUncut .start p) ∧ ∀ p ∈ pieces.dropLast, EndsOutside p := by
  have hclosed : pieces.Pairwise (fun p _ => EndsOutside p) ↔ ∀ p ∈ pieces.dropLast, EndsOutside p := by
    induction pieces with
    | nil => simp
    | cons p rest ih =>
      cases rest with
      | nil => simp
      | cons q rest =>
        have hfirst : (∀ u ∈ q :: rest, EndsOutside p) ↔ EndsOutside p :=
          ⟨fun hp => hp q List.mem_cons_self, fun hp _ _ => hp⟩
        rw [List.pairwise_cons, hfirst, ih, List.dropLast_cons_cons, List.forall_mem_cons]
  rw [← hclosed]
  exact ⟨fun h => ⟨h.uncut, h.closed⟩, fun h => ⟨h.1, h.2⟩⟩

theorem areAlternatives_map_trim :
    AreAlternatives (pieces.map Text.trim) ↔ AreAlternatives pieces := by
  constructor
  · rintro ⟨hu, hc⟩
    rw [List.pairwise_map] at hc
    exact ⟨fun p hp => isUncut_trim.1 (hu _ (List.mem_map_of_mem hp)),
      hc.imp fun h => endsOutside_trim.1 h⟩
  · rintro ⟨hu, hc⟩
    refine ⟨List.forall_mem_map.2 fun p hp => isUncut_trim.2 (hu p hp), ?_⟩
    rw [List.pairwise_map]
    exact hc.imp fun h => endsOutside_trim.2 h

/-- **The alternatives, read from any state.** They end outside as far as a bar follows
them, and all of them do where the text does. -/
theorem exists_go (s : ScanState) (t : Text) : ∃ p pieces, alternatives.go s t = p :: pieces ∧
    IsUncut s p ∧ (pieces ≠ [] → (s.after p).atTop = true) ∧ AreAlternatives pieces ∧
    ((s.after t).atTop = true → (s.after p).atTop = true ∧ ∀ q ∈ pieces, EndsOutside q) := by
  induction t generalizing s with
  | nil =>
    exact ⟨[], [], rfl, isUncut_nil s, fun h => absurd rfl h, ⟨by simp, .nil⟩, fun hs => ⟨hs, by simp⟩⟩
  | cons c t ih =>
    obtain ⟨p, pieces, hp, huncut, htop, hpieces, houtside⟩ := ih (s.next c)
    cases hc : c == '|' && s.atTop with
    | true =>
      rw [Bool.and_eq_true, beq_iff_eq] at hc
      obtain ⟨rfl, hs⟩ := hc
      have hbar : s.next '|' = ⟨none, 0, '|'⟩ := by
        rw [eq_of_atTop hs]
        rfl
      -- behind the bar the scan goes on as at the start
      rw [hbar] at huncut htop houtside
      have hstart : ∀ u : Text, ((⟨none, 0, '|'⟩ : ScanState).after u).atTop = true ↔ EndsOutside u :=
        fun u => atTop_after_iff_start rfl (by decide)
      refine ⟨[], p :: pieces, by rw [go_cut hs, hp], isUncut_nil s, fun _ => hs,
        ⟨?_, ?_⟩, fun ht => ⟨hs, ?_⟩⟩
      · exact List.forall_mem_cons.2 ⟨(isUncut_iff_start rfl (by decide)).1 huncut, hpieces.uncut⟩
      · refine List.pairwise_cons.2 ⟨fun q hq => ?_, hpieces.closed⟩
        exact (hstart p).1 (htop (List.ne_nil_of_mem hq))
      · rw [after_cons, hbar] at ht
        obtain ⟨hclosed, hothers⟩ := houtside ht
        exact List.forall_mem_cons.2 ⟨(hstart p).1 hclosed, hothers⟩
    | false =>
      exact ⟨c :: p, pieces, go_cons hc hp, isUncut_cons_iff.2 ⟨hc, huncut⟩, htop, hpieces, houtside⟩

theorem areAlternatives_alternatives (t : Text) : AreAlternatives (alternatives t) := by
  obtain ⟨p, pieces, hp, huncut, htop, hpieces, _⟩ := exists_go .start t
  rw [alternatives, hp]
  exact ⟨List.forall_mem_cons.2 ⟨huncut, hpieces.uncut⟩,
    List.pairwise_cons.2 ⟨fun q hq => htop (List.ne_nil_of_mem hq), hpieces.closed⟩⟩

/-- **A union that ends outside quotes and brackets has whole alternatives.** -/
theorem isAlternative_of_mem (h : EndsOutside t) : ∀ p ∈ alternatives t, IsAlternative p := by
  have huncut := (areAlternatives_alternatives t).uncut
  obtain ⟨first, pieces, hfirst, _, _, _, houtside⟩ := exists_go .start t
  rw [← alternatives] at hfirst
  intro p hp
  refine ⟨huncut p hp, ?_⟩
  rw [hfirst] at hp
  exact List.forall_mem_cons.2 (houtside h) p hp

/-- **Put together with bars, alternatives are those of the union.** -/
theorem AreAlternatives.alternatives_join (hne : pieces ≠ []) (h : AreAlternatives pieces) :
    alternatives (Text.join ['|'] pieces) = pieces := by
  induction pieces with
  | nil => exact absurd rfl hne
  | cons p rest ih =>
    obtain ⟨huncut, _⟩ := List.forall_mem_cons.1 h.uncut
    by_cases hnil : rest = []
    · rw [hnil, Text.join_singleton]
      exact alternatives_uncut huncut
    · obtain ⟨q, hq⟩ := List.exists_mem_of_ne_nil rest hnil
      have hclosed : EndsOutside p := (List.pairwise_cons.1 h.closed).1 q hq
      have hbar : (ScanState.start.after p).next '|' = ⟨none, 0, '|'⟩ := by
        rw [eq_of_atTop hclosed]
        rfl
      rw [Text.join_cons _ _ hnil, List.append_assoc, List.singleton_append, alternatives_bar hclosed,
        hbar, go_eq_start rfl (by decide), ih hnil (h.sublist (List.sublist_cons_self p rest)),
        alternatives_uncut huncut]
      rfl

/-- Blanks at the two ends of a union are those of its first and its last alternative. -/
theorem AreAlternatives.map_trim_join (hne : pieces ≠ []) (h : AreAlternatives pieces) :
    (alternatives (Text.join ['|'] pieces).trim).map Text.trim = pieces.map Text.trim := by
  obtain ⟨before, behind, hbefore, hbehind, heq⟩ := Text.exists_trim (Text.join ['|'] pieces)
  rw [← map_trim_between hbefore hbehind, ← heq, h.alternatives_join hne]

/-- Texts that end outside do so together. -/
theorem endsOutside_join (h : ∀ p ∈ pieces, EndsOutside p) : EndsOutside (Text.join ['|'] pieces) := by
  induction pieces with
  | nil => rfl
  | cons p rest ih =>
    obtain ⟨hp, hrest⟩ := List.forall_mem_cons.1 h
    by_cases hnil : rest = []
    · rwa [hnil, Text.join_singleton]
    · have hbar : (ScanState.start.after p).next '|' = ⟨none, 0, '|'⟩ := by
        rw [eq_of_atTop hp]
        rfl
      rw [Text.join_cons _ _ hnil, List.append_assoc, List.singleton_append, EndsOutside,
        after_append, after_cons, hbar]
      exact (atTop_after_iff_start rfl (by decide)).2 (ih hrest)

/-- **Put together with bars, whole alternatives are those of the union.** -/
theorem alternatives_of_join (hne : pieces ≠ []) (h : ∀ p ∈ pieces, IsAlternative p) :
    alternatives (Text.join ['|'] pieces) = pieces ∧ EndsOutside (Text.join ['|'] pieces) :=
  ⟨(AreAlternatives.of_forall h).alternatives_join hne, endsOutside_join fun p hp => (h p hp).closed⟩

end Union

end Fabula
