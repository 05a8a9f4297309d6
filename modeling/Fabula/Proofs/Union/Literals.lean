import Fabula.Proofs.Patch.RoundTrip
import Fabula.Proofs.Registry.Entries
import Fabula.Proofs.Union.Alternatives
import Fabula.Proofs.Union.Never
import Fabula.Union.Declaration

/-!
# Unions of literals

A union of literals is written with a bar, a line break and a tab between them, and as `never`
when there are none (`Union.rightSide`). Its edits are edits of the list: a new literal comes
last (`UnionDeclaration.extended_rightSide`), and one that goes leaves the others as they would
have been written without it, wherever it stood (`UnionDeclaration.shrunk?_rightSide`).

## The placeholder

An extension drops the placeholder `never` first, and must not find it inside a literal. It
cannot, because the placeholder is not read where a quote, a hyphen or a character of a name
touches it, and in a literal every character of a name follows one of these (`Union.IsGuarded`).
That is a property of neighbouring characters, so it goes from the literals to the union. A
literal may well be made of the word `never`.

## Whether a literal is there

An extension asks whether the new literal occurs in the text of the union. It does not take it
for one that is there, since an occurrence would begin and end with a quote, and a quote in the
union begins or ends a literal (`Union.IsQuoted.eq_of_occurrence`). It cannot begin at the quote
that ends a literal either, because what follows that quote is a blank.

## Where it is cut

A literal has no bar and no bracket, and its quotes protect what is between them
(`Union.IsWhole.of_literal`), so a union of literals is cut between its literals
(`Union.alternatives_join`). A removal leaves the alternatives in front and behind with their
blanks. The first alternative has no line break in front of it, and the last one no blank
behind. When one of these goes, the next one has these blanks, and they are trimmed
(`Union.exists_eraseIdx_pieces`).
-/

namespace Fabula

namespace Union

/-- **A literal**: characters of names and hyphens between two quotes. -/
def IsLiteral (l : Text) : Prop :=
  ∃ inner, IsSpelled ['-'] inner ∧ l = '\'' :: (inner ++ ['\''])

/-- **A quoted text**: between two quotes any characters but this quote and backslashes. -/
def IsQuoted (q : Char) (l : Text) : Prop :=
  ∃ inner, q ∉ inner ∧ '\\' ∉ inner ∧ l = q :: (inner ++ [q])

instance (q : Char) (l : Text) : Decidable (IsQuoted q l) :=
  decidable_of_iff (q ∉ l.tail.dropLast ∧ '\\' ∉ l.tail.dropLast ∧
      l = q :: (l.tail.dropLast ++ [q])) <| by
    constructor
    · exact fun h => ⟨_, h⟩
    · rintro ⟨inner, hquote, hescape, rfl⟩
      rw [List.tail_cons, List.dropLast_concat]
      exact ⟨hquote, hescape, rfl⟩

/-- What stands between two literals. -/
def separator : Text :=
  " |\n\t".toList

/-- What a literal behind another one begins with. -/
def lead : Text :=
  "\n\t".toList

/-- **The right-hand side of a union of literals.** -/
def rightSide (literals : List Text) : Text :=
  if literals = [] then neverWord else Text.join separator literals

variable {l t u : Text} {ls xs ys : List Text} {c : Char}

/-- **No quoted text occurs in another one** with the same quote: the quotes of both would
have to be the same. -/
theorem IsQuoted.eq_of_occurrence {q : Char} {w x y : Text} (hw : IsQuoted q w) (hl : IsQuoted q l)
    (heq : l = x ++ (w ++ y)) : w = l := by
  obtain ⟨inner, hquote, _, rfl⟩ := hw
  obtain ⟨inner', hquote', _, rfl⟩ := hl
  cases x with
  | nil =>
    have hbehind : inner' ++ q :: [] = inner ++ q :: y := by
      have htail := congrArg List.tail heq
      simpa using htail
    obtain ⟨rfl, _⟩ := (List.append_cons_inj_of_notMem hquote' List.not_mem_nil).1 hbehind
    rfl
  | cons d x =>
    -- there is only one quote behind the first character
    have hcount := congrArg (fun t => List.count q t.tail) heq
    simp [List.count_eq_zero.2 hquote, List.count_eq_zero.2 hquote'] at hcount
    omega

namespace IsLiteral

variable (h : IsLiteral l)

include h in
theorem exists_cons : ∃ t, l = '\'' :: t := by
  obtain ⟨inner, _, rfl⟩ := h
  exact ⟨_, rfl⟩

include h in
theorem ne_nil : l ≠ [] := by
  obtain ⟨t, rfl⟩ := h.exists_cons
  exact List.cons_ne_nil _ _

include h in
/-- What a literal does not hold: characters that are neither of a name, nor a hyphen,
nor a quote. -/
theorem not_mem (hc : isNameChar c = false) (hmark : c ∉ ['-', '\'']) : c ∉ l := by
  obtain ⟨inner, hinner, rfl⟩ := h
  rw [List.mem_cons, List.mem_cons, not_or, not_or] at hmark
  simp [hinner.not_mem hc (by simp [hmark.1]), hmark.2.1]

include h in
theorem trim : l.trim = l := by
  obtain ⟨inner, _, rfl⟩ := h
  have hlast : ('\'' :: (inner ++ ['\''])).getLast? = some '\'' := by
    rw [← List.cons_append, List.getLast?_concat]
  exact Text.trim_of_ends (c := '\'') rfl (by decide) hlast (by decide)

include h in
theorem isQuoted : IsQuoted '\'' l := by
  obtain ⟨inner, hinner, rfl⟩ := h
  exact ⟨inner, hinner.not_mem (by decide) (by decide), hinner.not_mem (by decide) (by decide), rfl⟩

include h in
/-- No literal occurs in another one. -/
theorem avoids {l' : Text} (h' : IsLiteral l') (hne : l ≠ l') : Text.Avoids l l' :=
  fun _ _ heq => hne (h.isQuoted.eq_of_occurrence h'.isQuoted heq)

end IsLiteral

/-! ## The placeholder -/

/-- **A text in which no name can be the placeholder**: every character of a name
follows one that the placeholder does not follow. -/
def IsGuarded (t : Text) : Prop :=
  ∀ x c y, t = x ++ c :: y → isNameChar c = true → x.getLast?.any touchesNever = true

namespace IsGuarded

theorem append (ht : IsGuarded t) (hu : IsGuarded u) : IsGuarded (t ++ u) := by
  intro x c y heq hc
  rcases List.append_eq_append_iff.1 heq with ⟨z, rfl, hz⟩ | ⟨z, rfl, hz⟩
  · have htouch := hu z c y hz hc
    cases hlast : z.getLast? with
    | none =>
      rw [hlast] at htouch
      cases htouch
    | some d =>
      rw [hlast] at htouch
      rw [List.getLast?_append, hlast]
      exact htouch
  · cases z with
    | nil =>
      have htouch := hu [] c y hz.symm hc
      cases htouch
    | cons d z =>
      obtain ⟨rfl, _⟩ := List.cons.inj hz
      exact ht x c z rfl hc

theorem of_no_name (h : ∀ c ∈ t, isNameChar c = false) : IsGuarded t := by
  rintro x c y rfl hc
  rw [h c (by simp)] at hc
  cases hc

theorem of_literal (h : IsLiteral l) : IsGuarded l := by
  obtain ⟨inner, hinner, rfl⟩ := h
  have htouch : ∀ c ∈ '\'' :: inner, touchesNever c = true := by
    intro c hc
    unfold touchesNever
    rcases List.mem_cons.1 hc with rfl | hc
    · decide
    · rcases hinner c hc with hname | hmark
      · rw [hname]
        simp
      · rw [List.mem_singleton.1 hmark]
        decide
  rintro x c y heq hc
  cases hlast : x.getLast? with
  | none =>
    obtain rfl := List.getLast?_eq_none_iff.1 hlast
    obtain ⟨rfl, _⟩ := List.cons.inj heq
    exact absurd hc (by decide)
  | some d =>
    -- only the closing quote has all the others before it
    have hx : x <+: ('\'' :: inner) ++ ['\''] := ⟨c :: y, heq.symm⟩
    rcases List.prefix_concat_iff.1 hx with hall | hfront
    · have hlength := congrArg List.length heq
      simp [hall] at hlength
    · exact htouch d (hfront.subset (List.mem_of_getLast? hlast))

/-- **The placeholder does not stand in a guarded text.** -/
theorem not_holdsNever (h : IsGuarded t) : ¬HoldsNever t := by
  rintro ⟨x, y, heq, hx, _⟩
  rw [h x 'n' ("ever".toList ++ y) heq (by decide)] at hx
  cases hx

end IsGuarded

/-! ## The alternatives -/

open ScanState

/-- **A text that is not cut**: read outside quotes and brackets, it goes to the
alternative that is being read, and the scan is outside behind it. -/
def IsWhole (u : Text) : Prop :=
  ∀ s : ScanState, s.atTop = true → ∃ s' : ScanState, s'.atTop = true ∧
    ∀ t piece pieces, alternatives.go s' t = piece :: pieces →
      alternatives.go s (u ++ t) = (u ++ piece) :: pieces

namespace IsWhole

theorem nil : IsWhole [] :=
  fun s hs => ⟨s, hs, fun _ _ _ ht => ht⟩

theorem append (ht : IsWhole t) (hu : IsWhole u) : IsWhole (t ++ u) := by
  intro s hs
  obtain ⟨s₁, hs₁, hfirst⟩ := ht s hs
  obtain ⟨s₂, hs₂, hsecond⟩ := hu s₁ hs₁
  refine ⟨s₂, hs₂, fun v piece pieces hv => ?_⟩
  rw [List.append_assoc, List.append_assoc]
  exact hfirst _ _ _ (hsecond v piece pieces hv)

/-- A character without meaning cuts nothing. -/
theorem plain (hquote : isQuote c = false) (hopen : opens c = false) (hclose : closes c = false)
    (hbar : c ≠ '|') : IsWhole [c] := by
  intro s hs
  have hnext : s.next c = ⟨none, 0, c⟩ := by
    rw [eq_of_atTop hs]
    simp [next, hquote, hopen, hclose]
  refine ⟨s.next c, by rw [hnext]; rfl, fun t piece pieces ht => go_cons ?_ ht⟩
  rw [beq_eq_false_iff_ne.2 hbar, Bool.false_and]

/-- Inside quotes the scan goes on to the quote that closes them. -/
theorem go_quoted {inner piece : Text} {pieces : List Text} {depth : Nat} {previous : Char}
    (hinner : IsSpelled ['-'] inner) (hprevious : previous ≠ '\\')
    (ht : alternatives.go ⟨none, depth, '\''⟩ t = piece :: pieces) :
    alternatives.go ⟨some '\'', depth, previous⟩ (inner ++ '\'' :: t) =
      (inner ++ '\'' :: piece) :: pieces := by
  induction inner generalizing previous with
  | nil =>
    refine go_cons (by simp [atTop]) ?_
    have hnext : next ⟨some '\'', depth, previous⟩ '\'' = ⟨none, depth, '\''⟩ := by
      simp [next, hprevious]
    rwa [hnext]
  | cons c inner ih =>
    have hother : ∀ d : Char, isNameChar d = false → d ≠ '-' → c ≠ d := by
      rintro d hd hhyphen rfl
      rcases hinner c List.mem_cons_self with hname | hmark
      · rw [hd] at hname
        cases hname
      · exact hhyphen (List.mem_singleton.1 hmark)
    have hquote := hother '\'' (by decide) (by decide)
    have hnext : next ⟨some '\'', depth, previous⟩ c = ⟨some '\'', depth, c⟩ := by
      simp [next, hquote]
    refine go_cons (by simp [atTop]) ?_
    rw [hnext]
    exact ih (fun d hd => hinner d (List.mem_cons_of_mem _ hd))
      (hother '\\' (by decide) (by decide))

/-- **Quotes protect what is between them.** -/
theorem of_literal (h : IsLiteral l) : IsWhole l := by
  obtain ⟨inner, hinner, rfl⟩ := h
  intro s hs
  refine ⟨⟨none, 0, '\''⟩, rfl, fun t piece pieces ht => ?_⟩
  have hbehind := go_quoted hinner (show '\'' ≠ '\\' by decide) ht
  have hfirst := go_cons (c := '\'') (s := ⟨none, 0, s.previous⟩) rfl hbehind
  rw [eq_of_atTop hs]
  simpa using hfirst

end IsWhole

/-- **The alternatives of a union of literals**: each literal with the blanks around
it, `front` before the first and `back` behind the last. -/
def pieces (front back : Text) : List Text → List Text
  | [] => []
  | [l] => [front ++ l ++ back]
  | l :: l' :: ls => (front ++ l ++ [' ']) :: pieces lead back (l' :: ls)

theorem pieces_cons (front back : Text) (h : ls ≠ []) :
    pieces front back (l :: ls) = (front ++ l ++ [' ']) :: pieces lead back ls := by
  obtain ⟨l', ls, rfl⟩ := List.exists_cons_of_ne_nil h
  rfl

theorem pieces_ne_nil (front back : Text) (h : ls ≠ []) : pieces front back ls ≠ [] := by
  obtain ⟨l, ls, rfl⟩ := List.exists_cons_of_ne_nil h
  cases ls <;> exact List.cons_ne_nil _ _

theorem separator_eq : separator = ' ' :: '|' :: lead := by
  decide

/-- **Put together with bars**, the alternatives are the union. -/
theorem join_pieces (front back : Text) (h : ls ≠ []) :
    Text.join ['|'] (pieces front back ls) = front ++ Text.join separator ls ++ back := by
  induction ls generalizing front with
  | nil => exact absurd rfl h
  | cons l ls ih =>
    cases ls with
    | nil =>
      show Text.join ['|'] [front ++ l ++ back] = _
      rw [Text.join_singleton, Text.join_singleton]
    | cons l' ls =>
      have hne : l' :: ls ≠ [] := List.cons_ne_nil _ _
      rw [pieces_cons _ _ hne, Text.join_cons _ _ (pieces_ne_nil _ _ hne), ih _ hne,
        Text.join_cons _ _ hne, separator_eq]
      simp

/-- **A union of literals is cut between its literals.** -/
theorem alternatives_join (hls : ∀ l ∈ ls, IsLiteral l) (hne : ls ≠ []) :
    alternatives (Text.join separator ls) = pieces [] [] ls := by
  suffices hgo : ∀ (front : Text) (s : ScanState), IsWhole front → s.atTop = true →
      alternatives.go s (front ++ Text.join separator ls) = pieces front [] ls from
    hgo [] .start .nil rfl
  induction ls with
  | nil => exact absurd rfl hne
  | cons l ls ih =>
    intro front s hfront hs
    have hl : IsWhole (front ++ l) := hfront.append (.of_literal (hls l List.mem_cons_self))
    cases ls with
    | nil =>
      obtain ⟨s', _, hgo⟩ := hl s hs
      rw [Text.join_singleton]
      have hall := hgo [] [] [] rfl
      rw [List.append_nil] at hall
      show _ = [front ++ l ++ []]
      rw [hall, List.append_nil]
    | cons l' ls =>
      have hne' : l' :: ls ≠ [] := List.cons_ne_nil _ _
      have hspace : IsWhole [' '] := .plain (by decide) (by decide) (by decide) (by decide)
      have hlead : IsWhole lead :=
        (IsWhole.plain (c := '\n') (by decide) (by decide) (by decide) (by decide)).append
          (.plain (c := '\t') (by decide) (by decide) (by decide) (by decide))
      obtain ⟨s', hs', hgo⟩ := (hl.append hspace) s hs
      have hbar : (s'.next '|').atTop = true := by
        rw [eq_of_atTop hs']
        rfl
      have hrest := ih (fun l hl => hls l (List.mem_cons_of_mem _ hl)) hne' lead (s'.next '|')
        hlead hbar
      have hcut : alternatives.go s' ('|' :: (lead ++ Text.join separator (l' :: ls))) =
          [] :: pieces lead [] (l' :: ls) := by
        rw [alternatives.go, hs', hrest]
        rfl
      rw [pieces_cons _ _ hne', Text.join_cons _ _ hne', ← List.append_nil (front ++ l ++ [' ']),
        ← hgo _ _ _ hcut]
      congr 1
      have hseparator : separator ++ Text.join separator (l' :: ls) =
          [' '] ++ '|' :: (lead ++ Text.join separator (l' :: ls)) := by
        rw [separator_eq]
        simp
      simp only [List.append_assoc, hseparator]

/-- What is between a union of literals and its alternatives is blank. -/
theorem isBlank_of_mem_lead (hc : c ∈ lead) : isBlank c = true := by
  revert c
  decide

/-- **The alternatives without their blanks** are the literals. -/
theorem map_trim_pieces {front back : Text} (hls : ∀ l ∈ ls, IsLiteral l)
    (hfront : ∀ c ∈ front, isBlank c = true) (hback : ∀ c ∈ back, isBlank c = true) :
    (pieces front back ls).map Text.trim = ls := by
  induction ls generalizing front with
  | nil => rfl
  | cons l ls ih =>
    have hl := hls l List.mem_cons_self
    have htrim : ∀ behind : Text, (∀ c ∈ behind, isBlank c = true) →
        (front ++ l ++ behind).trim = l := by
      intro behind hbehind
      rw [List.append_assoc]
      exact Text.trim_blanks hl.ne_nil hl.trim hfront hbehind
    cases ls with
    | nil =>
      show [(front ++ l ++ back).trim] = [l]
      rw [htrim back hback]
    | cons l' ls =>
      show (front ++ l ++ [' ']).trim :: (pieces lead back (l' :: ls)).map Text.trim = _
      rw [htrim [' '] (by decide),
        ih (fun l hl => hls l (List.mem_cons_of_mem _ hl)) fun _ => isBlank_of_mem_lead]

/-- An alternative in front of others, or of none. -/
theorem exists_pieces_cons (front l : Text) (ls : List Text) {back : Text}
    (hback : ∀ c ∈ back, isBlank c = true) : ∃ back', (∀ c ∈ back', isBlank c = true) ∧
      (front ++ l ++ [' ']) :: pieces lead back ls = pieces front back' (l :: ls) := by
  cases ls with
  | nil => exact ⟨[' '], by decide, rfl⟩
  | cons l' ls => exact ⟨back, hback, rfl⟩

/-- **Without one of its alternatives**, a union has those of the other literals: the
blanks in front of the first and behind the last are the ones that were there. -/
theorem exists_eraseIdx_pieces (xs : List Text) (l : Text) (ys : List Text) {front back : Text}
    (hfront : ∀ c ∈ front, isBlank c = true) (hback : ∀ c ∈ back, isBlank c = true) :
    ∃ front' back', (∀ c ∈ front', isBlank c = true) ∧ (∀ c ∈ back', isBlank c = true) ∧
      (front = lead → front' = lead) ∧
      (pieces front back (xs ++ l :: ys)).eraseIdx xs.length = pieces front' back' (xs ++ ys) := by
  induction xs generalizing front with
  | nil =>
    refine ⟨lead, back, fun _ => isBlank_of_mem_lead, hback, fun _ => rfl, ?_⟩
    cases ys <;> rfl
  | cons x xs ih =>
    obtain ⟨front', back₁, _, hback₁, hlead, herase⟩ := ih (show ∀ c ∈ lead, _ from fun _ => isBlank_of_mem_lead)
    obtain ⟨back', hback', hcons⟩ := exists_pieces_cons front x (xs ++ ys) hback₁
    refine ⟨front, back', hfront, hback', id, ?_⟩
    rw [List.cons_append, pieces_cons _ _ (by simp), List.length_cons, List.eraseIdx_cons_succ,
      herase, hlead rfl, hcons, List.cons_append]

/-! ## The right-hand side -/

section RightSide

/-- A union of literals begins and ends with a quote. -/
theorem ends_join (hls : ∀ l ∈ ls, IsLiteral l) (hne : ls ≠ []) :
    (Text.join separator ls).head? = some '\'' ∧
      (Text.join separator ls).getLast? = some '\'' := by
  have hend : ∀ l, IsLiteral l → l.head? = some '\'' ∧ l.getLast? = some '\'' := by
    rintro l ⟨inner, _, rfl⟩
    exact ⟨rfl, by rw [← List.cons_append, List.getLast?_concat]⟩
  induction ls with
  | nil => exact absurd rfl hne
  | cons l ls ih =>
    obtain ⟨hhead, hlast⟩ := hend l (hls l List.mem_cons_self)
    cases ls with
    | nil =>
      rw [Text.join_singleton]
      exact ⟨hhead, hlast⟩
    | cons l' ls =>
      obtain ⟨_, hrest⟩ := ih (fun l hl => hls l (List.mem_cons_of_mem _ hl)) (List.cons_ne_nil _ _)
      rw [Text.join_cons _ _ (List.cons_ne_nil _ _), List.append_assoc, List.head?_append, hhead,
        List.getLast?_append, List.getLast?_append, hrest]
      exact ⟨rfl, rfl⟩

theorem join_ne_nil (hls : ∀ l ∈ ls, IsLiteral l) (hne : ls ≠ []) :
    Text.join separator ls ≠ [] := by
  intro hnil
  have hhead := (ends_join hls hne).1
  rw [hnil] at hhead
  cases hhead

theorem trim_join (hls : ∀ l ∈ ls, IsLiteral l) (hne : ls ≠ []) :
    (Text.join separator ls).trim = Text.join separator ls :=
  Text.trim_of_ends (ends_join hls hne).1 (by decide) (ends_join hls hne).2 (by decide)

/-- A literal behind others is written behind a bar. -/
theorem join_concat (hne : ls ≠ []) :
    Text.join separator (ls ++ [l]) = Text.join separator ls ++ separator ++ l := by
  induction ls with
  | nil => exact absurd rfl hne
  | cons l' ls ih =>
    rw [List.cons_append, Text.join_cons _ _ (by simp)]
    cases ls with
    | nil => rw [List.nil_append, Text.join_singleton, Text.join_singleton]
    | cons l'' ls =>
      rw [ih (List.cons_ne_nil _ _), Text.join_cons _ _ (List.cons_ne_nil _ _)]
      simp only [List.append_assoc]

/-- A property of literals and of what is between them is one of their union. -/
theorem join_induction {P : Text → Prop} (hnil : P [])
    (hseparator : ∀ s t, P s → P t → P (s ++ separator ++ t)) (hls : ∀ l ∈ ls, P l) :
    P (Text.join separator ls) := by
  induction ls with
  | nil => exact hnil
  | cons l ls ih =>
    cases ls with
    | nil =>
      rw [Text.join_singleton]
      exact hls l List.mem_cons_self
    | cons l' ls =>
      rw [Text.join_cons _ _ (List.cons_ne_nil _ _)]
      exact hseparator _ _ (hls l List.mem_cons_self) (ih fun l hl => hls l (List.mem_cons_of_mem _ hl))

theorem isGuarded_join (hls : ∀ l ∈ ls, IsLiteral l) : IsGuarded (Text.join separator ls) := by
  have hseparator : IsGuarded separator := .of_no_name (by decide)
  exact join_induction (.of_no_name (by simp)) (fun _ _ hs ht => (hs.append hseparator).append ht)
    fun l hl => .of_literal (hls l hl)

/-- **A literal that is not among those of a union does not occur in it.** -/
theorem avoids_join (h : IsLiteral l) (hls : ∀ l' ∈ ls, IsLiteral l') (hnew : l ∉ ls) :
    Text.Avoids l (Text.join separator ls) := by
  have hfree : ∀ c ∈ separator, c ∉ l := by
    intro c hc
    have hmark : isNameChar c = false ∧ c ∉ ['-', '\''] := by
      revert c
      decide
    exact h.not_mem hmark.1 hmark.2
  obtain ⟨t, rfl⟩ := h.exists_cons
  refine join_induction (.of_not_mem List.mem_cons_self List.not_mem_nil) (fun s t hs ht => ?_)
    fun l' hl' => h.avoids (hls l' hl') (by rintro rfl; exact hnew hl')
  rw [List.append_assoc]
  exact .append (hfree ' ' (by decide)) hs (.cons (hfree '|' (by decide))
    (.cons (hfree '\n' (by decide)) (.cons (hfree '\t' (by decide)) ht)))

/-- What a right-hand side does not hold. -/
theorem not_mem_rightSide (hls : ∀ l ∈ ls, IsLiteral l) (hc : isNameChar c = false)
    (hmark : c ∉ ['-', '\'', ' ', '|', '\n', '\t']) : c ∉ rightSide ls := by
  have hnever : c ∉ neverWord := by
    have hname : ∀ c ∈ neverWord, isNameChar c = true := by
      decide
    intro hmem
    rw [hname c hmem] at hc
    cases hc
  have hliteral : ∀ l ∈ ls, c ∉ l := fun l hl => (hls l hl).not_mem hc fun h => hmark (by
    rcases List.mem_cons.1 h with rfl | h
    · decide
    · rw [List.mem_singleton.1 h]
      decide)
  unfold rightSide
  split
  · exact hnever
  · refine join_induction (P := fun t => c ∉ t) List.not_mem_nil (fun s t hs ht => ?_) hliteral
    have hmarks : ∀ c ∈ separator, c ∈ ['-', '\'', ' ', '|', '\n', '\t'] := by
      decide
    have hseparator : c ∉ separator := fun h => hmark (hmarks c h)
    simp [hs, ht, hseparator]

theorem rightSide_ne_nil (hls : ∀ l ∈ ls, IsLiteral l) : rightSide ls ≠ [] := by
  unfold rightSide
  split
  · decide
  · exact join_ne_nil hls ‹_›

theorem trim_rightSide (hls : ∀ l ∈ ls, IsLiteral l) : (rightSide ls).trim = rightSide ls := by
  unfold rightSide
  split
  · decide
  · exact trim_join hls ‹_›

end RightSide

end Union

namespace UnionDeclaration

open Fabula.Union

variable {d : UnionDeclaration} {l : Text} {ls xs ys : List Text}

/-- Without the placeholder, a right-hand side is its literals. -/
theorem normalized_rightSide (hrhs : d.rhs = rightSide ls) (hls : ∀ l ∈ ls, IsLiteral l) :
    d.normalized = Text.join separator ls := by
  unfold normalized
  rw [hrhs]
  unfold rightSide
  split
  · rename_i hnil
    rw [hnil, stripped_neverWord]
    rfl
  · rw [stripped_eq_trim (isGuarded_join hls).not_holdsNever, trim_join hls ‹_›]

/-- **A new literal is not mentioned.** -/
theorem mentions_rightSide (hrhs : d.rhs = rightSide ls) (hls : ∀ l ∈ ls, IsLiteral l)
    (h : IsLiteral l) (hnew : l ∉ ls) : d.mentions l = false := by
  unfold mentions
  rw [normalized_rightSide hrhs hls]
  exact Text.contains_eq_false (avoids_join h hls hnew)

/-- **A further literal comes last.** -/
theorem extended_rightSide (hrhs : d.rhs = rightSide ls) (hls : ∀ l ∈ ls, IsLiteral l) (l : Text) :
    d.extended l = rightSide (ls ++ [l]) := by
  unfold extended
  rw [normalized_rightSide hrhs hls]
  unfold rightSide
  rw [if_neg (show ls ++ [l] ≠ [] by simp)]
  split
  · rename_i hnil
    have hls' : ls = [] := by
      by_contra hne
      exact join_ne_nil hls hne hnil
    rw [hls', List.nil_append, Text.join_singleton]
  · rename_i hne
    have hls' : ls ≠ [] := by
      rintro rfl
      exact hne rfl
    rw [join_concat hls']
    rfl

/-- **A literal that goes leaves the others.** -/
theorem shrunk?_rightSide (hrhs : d.rhs = rightSide (xs ++ l :: ys))
    (hls : ∀ x ∈ xs ++ l :: ys, IsLiteral x) (hnew : l ∉ xs) :
    d.shrunk? l = some (rightSide (xs ++ ys)) := by
  have hl := hls l (by simp)
  have hothers : ∀ x ∈ xs ++ ys, IsLiteral x := fun x hx => hls x (by
    rw [List.mem_append, List.mem_cons]
    exact (List.mem_append.1 hx).imp_right .inr)
  have halternatives : alternatives d.rhs = pieces [] [] (xs ++ l :: ys) := by
    rw [hrhs]
    unfold rightSide
    rw [if_neg (by simp), alternatives_join hls (by simp)]
  have hnil : ∀ c ∈ ([] : Text), isBlank c = true := by
    simp
  -- with their blanks taken off, the first alternative that reads like the literal is it
  have hindex : (pieces [] [] (xs ++ l :: ys)).findIdx? (fun piece => piece.trim == l.trim) =
      some xs.length := by
    have hmap := map_trim_pieces hls hnil hnil
    have hxs : xs.findIdx? (· == l) = none := by
      rw [List.findIdx?_eq_none_iff]
      intro x hx
      exact beq_eq_false_iff_ne.2 (by rintro rfl; exact hnew hx)
    rw [hl.trim, show (fun piece : Text => piece.trim == l) = (· == l) ∘ Text.trim from rfl,
      ← List.findIdx?_map, hmap, List.findIdx?_append, hxs]
    simp [List.findIdx?_cons]
  obtain ⟨front, back, hfront, hback, _, herase⟩ :=
    exists_eraseIdx_pieces xs l ys hnil hnil
  unfold shrunk?
  rw [halternatives]
  simp only [hindex, herase]
  unfold rightSide
  by_cases hnone : xs ++ ys = []
  · rw [hnone, if_pos rfl]
    rfl
  · rw [if_neg hnone, join_pieces _ _ hnone, List.append_assoc,
      Text.trim_blanks (join_ne_nil hothers hnone) (trim_join hothers hnone) hfront hback,
      if_neg (join_ne_nil hothers hnone)]

end UnionDeclaration

end Fabula
