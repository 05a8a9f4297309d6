import Fabula.Proofs.Text.Pieces
import Fabula.Union.Variant

/-!
# Cutting a union into its alternatives

The alternatives are what stands between the bars outside quotes and brackets. They are found by
a scan, which remembers the quote it is in, the depth of brackets, and the character before.
This module says what the scan comes to, without following it character by character: the
alternatives are told by where it stands at each bar.

`ScanState.after` is the state behind a text. It composes, as texts do. The bars at which the
scan is at the top are the cuts (`Union.alternatives_bar`), and a text in which no bar is at the
top is one alternative (`Union.alternatives_uncut`). A text is therefore taken apart from the
front, at its first cut, and everything behind is read by the scan from the state at that bar.
Outside quotes and brackets such a state is the one at the start, but for the character before,
and that matters only for an arrow (`Union.next_eq_start`).

Put together with bars, the alternatives are the text again (`Union.join_alternatives`),
whatever its quotes and brackets are. So an edit which takes the alternatives apart and puts
them together loses nothing. The other way round it is not so simple, as texts that are put
together with bars may be cut in other places.

What counts as a quote or a bracket here is what the scan takes for one. It is not said that
this is the language's reading of the text.
-/

namespace Fabula

namespace Union

variable {t u : Text} {c : Char} {s : ScanState}

namespace ScanState

/-- **The state behind a text.** -/
def after (s : ScanState) (t : Text) : ScanState :=
  t.foldl next s

@[simp] theorem after_nil (s : ScanState) : s.after [] = s := rfl

@[simp] theorem after_cons (s : ScanState) (c : Char) (t : Text) :
    s.after (c :: t) = (s.next c).after t := rfl

@[simp] theorem after_append (s : ScanState) (t u : Text) :
    s.after (t ++ u) = (s.after t).after u :=
  List.foldl_append

end ScanState

open ScanState

/-- Outside quotes and brackets only the character before is left of a state. -/
theorem eq_of_atTop (h : s.atTop = true) : s = ⟨none, 0, s.previous⟩ := by
  obtain ⟨quote, depth, previous⟩ := s
  have htop : quote = none ∧ depth = 0 := by
    simpa [atTop] using h
  obtain ⟨rfl, rfl⟩ := htop
  rfl

/-- Outside quotes and brackets the scan goes on as at the start, unless an arrow can end
there. -/
theorem next_eq_start (hs : s.atTop = true) (hprevious : s.previous ≠ '=') (c : Char) :
    s.next c = ScanState.start.next c := by
  rw [eq_of_atTop hs]
  simp [next, ScanState.start, hprevious]

/-- **A text without bars at the top**: every bar in it stands inside quotes or
brackets. -/
def IsUncut (s : ScanState) (t : Text) : Prop :=
  ∀ x y, t = x ++ '|' :: y → (s.after x).atTop = false

theorem isUncut_nil (s : ScanState) : IsUncut s [] :=
  fun _ _ h => absurd h.symm (by simp)

theorem isUncut_cons_iff :
    IsUncut s (c :: t) ↔ (c == '|' && s.atTop) = false ∧ IsUncut (s.next c) t := by
  constructor
  · refine fun h => ⟨?_, fun x y ht => h (c :: x) y (by rw [ht, List.cons_append])⟩
    rw [Bool.and_eq_false_imp, beq_iff_eq]
    rintro rfl
    exact h [] t rfl
  · rintro ⟨hc, ht⟩ x y hx
    cases x with
    | nil =>
      obtain ⟨rfl, _⟩ := List.cons.inj hx
      simpa using hc
    | cons d x =>
      obtain ⟨rfl, ht'⟩ := List.cons.inj hx
      exact ht x y ht'

instance decidableIsUncut (s : ScanState) : (t : Text) → Decidable (IsUncut s t)
  | [] => isTrue (isUncut_nil s)
  | c :: t =>
    have := decidableIsUncut (s.next c) t
    decidable_of_iff _ isUncut_cons_iff.symm

/-! ## The cuts -/

/-- There is always an alternative. -/
theorem go_ne_nil (s : ScanState) (t : Text) : alternatives.go s t ≠ [] := by
  cases t with
  | nil => simp [alternatives.go]
  | cons c t =>
    rw [alternatives.go]
    split
    · simp
    · split <;> simp

/-- A character that cuts nothing goes to the alternative. -/
theorem go_cons {piece : Text} {pieces : List Text} (hc : (c == '|' && s.atTop) = false)
    (ht : alternatives.go (s.next c) t = piece :: pieces) :
    alternatives.go s (c :: t) = (c :: piece) :: pieces := by
  rw [alternatives.go, hc, ht]
  rfl

/-- A bar at the top ends the alternative. -/
theorem go_cut (h : s.atTop = true) :
    alternatives.go s ('|' :: t) = [] :: alternatives.go (s.next '|') t := by
  rw [alternatives.go, h]
  rfl

/-- **A bar at the top cuts**, whatever stands on both sides of it. -/
theorem go_bar (h : (s.after t).atTop = true) :
    alternatives.go s (t ++ '|' :: u) =
      alternatives.go s t ++ alternatives.go ((s.after t).next '|') u := by
  induction t generalizing s with
  | nil => exact go_cut h
  | cons c t ih =>
    rw [List.cons_append]
    cases hc : c == '|' && s.atTop with
    | true =>
      rw [Bool.and_eq_true, beq_iff_eq] at hc
      obtain ⟨rfl, hs⟩ := hc
      rw [go_cut hs, go_cut hs, ih h]
      rfl
    | false =>
      obtain ⟨piece, pieces, hp⟩ := List.exists_cons_of_ne_nil (go_ne_nil (s.next c) t)
      have hrest := ih h
      rw [hp] at hrest
      rw [go_cons hc hrest, go_cons hc hp]
      rfl

/-- **A text without bars at the top is one alternative.** -/
theorem go_uncut (h : IsUncut s t) : alternatives.go s t = [t] := by
  induction t generalizing s with
  | nil => rfl
  | cons c t ih =>
    obtain ⟨hc, ht⟩ := isUncut_cons_iff.1 h
    exact go_cons hc (ih ht)

/-- **Put together with bars**, the alternatives are the text. -/
theorem join_go (s : ScanState) (t : Text) : Text.join ['|'] (alternatives.go s t) = t := by
  induction t generalizing s with
  | nil => exact Text.join_singleton _ _
  | cons c t ih =>
    obtain ⟨piece, pieces, hp⟩ := List.exists_cons_of_ne_nil (go_ne_nil (s.next c) t)
    have hrest := ih (s.next c)
    cases hc : c == '|' && s.atTop with
    | true =>
      rw [Bool.and_eq_true, beq_iff_eq] at hc
      obtain ⟨rfl, hs⟩ := hc
      rw [go_cut hs, Text.join_cons _ _ (go_ne_nil _ _), hrest]
      rfl
    | false =>
      rw [hp] at hrest
      rw [go_cons hc hp]
      cases pieces with
      | nil =>
        rw [Text.join_singleton] at hrest ⊢
        rw [hrest]
      | cons second pieces =>
        rw [Text.join_cons _ _ (List.cons_ne_nil _ _)] at hrest ⊢
        rw [← hrest]
        rfl

/-! ## The alternatives of a right-hand side -/

theorem join_alternatives (t : Text) : Text.join ['|'] (alternatives t) = t :=
  join_go .start t

/-- **An alternative is part of the text.** -/
theorem exists_of_mem_alternatives {piece : Text} (h : piece ∈ alternatives t) :
    ∃ x y, t = x ++ (piece ++ y) := by
  obtain ⟨x, y, heq⟩ := Text.exists_of_mem_join ['|'] h
  exact ⟨x, y, by rw [← heq, join_alternatives]⟩

theorem alternatives_uncut (h : IsUncut .start t) : alternatives t = [t] :=
  go_uncut h

theorem alternatives_bar (h : (ScanState.start.after t).atTop = true) :
    alternatives (t ++ '|' :: u) =
      alternatives t ++ alternatives.go ((ScanState.start.after t).next '|') u :=
  go_bar h

end Union

end Fabula
