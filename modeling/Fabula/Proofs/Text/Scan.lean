import Mathlib.Data.List.Basic
import Mathlib.Data.List.TakeWhile
import Fabula.Text.Line
import Fabula.Text.Scan

/-!
# What a scan passes over

An edit looks for a pattern from the left and takes the first match; a replacement takes that
match and goes on behind it. So what an edit does is decided by the places it passes over, and
an argument about it has to say of a text that the pattern matches nowhere in it. This cannot be
said of the text alone. Whether a pattern matches at a place depends on the character before the
place, where a name may continue, and on everything behind it, as a match may reach over the end
of the text in question. `Text.Misses m previous s t` says it with both: `m` matches nowhere in
`s` when `previous` stands before it and `t` follows it.

Said like this it can be put together. A pattern misses two texts, one behind the other, when it
misses each, with the other one as its surroundings (`Text.misses_append_iff`). A search that
succeeds has missed everything in front of its answer (`Text.search?_eq_some_iff`), and that
together with the match determines the answer. A replacement keeps what it misses
(`Text.replaceAll_append`), so with one match it cuts that one out and does nothing else
(`Text.replaceAll_eq`).

## Where replacements are independent

A replacement with several matches cannot be described by one of them. There are patterns,
though, that do not read across certain characters: what they read in front of such a character
does not depend on what follows it (`Text.StopsAt`). Between two of these a replacement works by
itself (`Text.exists_replaceAll_between`), which is how a union is treated as a list of
literals, each with its own quotes around it.

## Where a text can occur

To show that a pattern misses a text one shows that what it begins with does not occur there.
Texts are put together from pieces with characters between them, and an occurrence of a text
that lacks such a character lies on one side of it (`Text.split_occurrence`). So a text avoids a
whole when it avoids the pieces (`Text.Avoids.append`), and a text with a character that is
missing occurs nowhere (`Text.Avoids.of_not_mem`).
-/

namespace Fabula

namespace Text

variable {α : Type} {previous : Option Char}

/-! ## The character before a place -/

@[simp] theorem lastOr_nil : lastOr previous [] = previous := rfl

@[simp] theorem lastOr_cons (c : Char) (s : Text) :
    lastOr previous (c :: s) = lastOr (some c) s := by
  cases s with
  | nil => rfl
  | cons d s =>
    unfold lastOr
    rw [List.getLast?_cons_cons, List.getLast?_cons]
    rfl

@[simp] theorem lastOr_append (s t : Text) :
    lastOr previous (s ++ t) = lastOr (lastOr previous s) t := by
  induction s generalizing previous with
  | nil => rfl
  | cons c s ih => rw [List.cons_append, lastOr_cons, lastOr_cons, ih]

theorem lastOr_none (s : Text) : lastOr none s = s.getLast? := by
  unfold lastOr
  rw [Option.or_none]

/-! ## Searching -/

/-- **A pattern matches nowhere in `s`**, when `t` follows it. -/
def Misses (m : Option Char → Text → Option α) (previous : Option Char) : Text → Text → Prop
  | [], _ => True
  | c :: cs, t => m previous (c :: cs ++ t) = none ∧ Misses m (some c) cs t

variable {m : Option Char → Text → Option α}

theorem misses_iff {s t : Text} :
    Misses m previous s t ↔
      ∀ x c y, s = x ++ c :: y → m (lastOr previous x) (c :: y ++ t) = none := by
  induction s generalizing previous with
  | nil =>
    refine iff_of_true trivial fun x c y h => ?_
    exact absurd h.symm (List.append_ne_nil_of_right_ne_nil x (List.cons_ne_nil c y))
  | cons d s ih =>
    constructor
    · rintro ⟨hd, hs⟩ x c y h
      cases x with
      | nil =>
        obtain ⟨rfl, rfl⟩ := List.cons.inj h
        exact hd
      | cons e x =>
        obtain ⟨rfl, hs'⟩ := List.cons.inj h
        rw [lastOr_cons]
        exact ih.1 hs x c y hs'
    · intro h
      refine ⟨h [] d s rfl, ih.2 fun x c y hs => ?_⟩
      have hx := h (d :: x) c y (by rw [hs, List.cons_append])
      rwa [lastOr_cons] at hx

/-- A pattern misses two texts, one behind the other, when it misses each. -/
theorem misses_append_iff {s t u : Text} :
    Misses m previous (s ++ t) u ↔
      Misses m previous s (t ++ u) ∧ Misses m (lastOr previous s) t u := by
  induction s generalizing previous with
  | nil => exact (and_iff_right trivial).symm
  | cons c s ih =>
    rw [List.cons_append, Misses, Misses, ih, lastOr_cons, and_assoc, List.cons_append,
      List.append_assoc, List.cons_append]

/-- **What a search finds**: the pattern matches there, and nowhere before. -/
theorem search?_eq_some_iff {t front : Text} {a : α} :
    search? m previous t = some (front, a) ↔
      ∃ rest, t = front ++ rest ∧ m (lastOr previous front) rest = some a ∧
        Misses m previous front rest := by
  induction t generalizing previous front with
  | nil =>
    rw [search?, Option.map_eq_some_iff]
    constructor
    · rintro ⟨b, hb, h⟩
      obtain ⟨rfl, rfl⟩ := Prod.mk.inj h
      exact ⟨[], rfl, hb, trivial⟩
    · rintro ⟨rest, ht, hm, _⟩
      obtain ⟨rfl, rfl⟩ := List.append_eq_nil_iff.1 ht.symm
      exact ⟨a, hm, rfl⟩
  | cons c cs ih =>
    rw [search?]
    constructor
    · intro h
      split at h
      · rename_i b hb
        obtain ⟨rfl, rfl⟩ := Prod.mk.inj (Option.some.inj h)
        exact ⟨c :: cs, rfl, hb, trivial⟩
      · rename_i hnone
        obtain ⟨⟨f, b⟩, hb, heq⟩ := Option.map_eq_some_iff.1 h
        obtain ⟨rfl, rfl⟩ := Prod.mk.inj heq
        obtain ⟨rest, hcs, hm, hmiss⟩ := ih.1 hb
        refine ⟨rest, by rw [hcs, List.cons_append], by rw [lastOr_cons, hm], ?_, hmiss⟩
        rw [List.cons_append, ← hcs]
        exact hnone
    · rintro ⟨rest, ht, hm, hmiss⟩
      cases front with
      | nil =>
        obtain rfl : c :: cs = rest := ht
        rw [show m previous (c :: cs) = some a from hm]
      | cons d front =>
        rw [List.cons_append] at ht
        obtain ⟨rfl, rfl⟩ := List.cons.inj ht
        rw [show m previous (c :: (front ++ rest)) = none from hmiss.1,
          ih.2 ⟨rest, rfl, by rw [← hm, lastOr_cons], hmiss.2⟩]
        rfl

/-- A search finds nothing where the pattern matches nowhere, nor at the end. -/
theorem search?_eq_none_iff {t : Text} :
    search? m previous t = none ↔ Misses m previous t [] ∧ m (lastOr previous t) [] = none := by
  induction t generalizing previous with
  | nil =>
    rw [search?, Option.map_eq_none_iff]
    exact ⟨fun h => ⟨trivial, h⟩, fun h => h.2⟩
  | cons c cs ih =>
    rw [search?, Misses, List.append_nil, lastOr_cons]
    cases hm : m previous (c :: cs) with
    | some a =>
      constructor
      · intro h
        cases h
      · rintro ⟨⟨h, _⟩, _⟩
        cases h
    | none =>
      rw [Option.map_eq_none_iff, ih, and_assoc]
      exact ⟨fun h => ⟨rfl, h⟩, fun h => h.2⟩

/-! ## Replacing -/

section Replace

variable {m : Option Char → Text → Option Text} {new : Text}

@[simp] theorem replaceAll_nil : replaceAll m new previous [] = [] := by
  rw [replaceAll]

/-- What the pattern misses is kept. -/
theorem replaceAll_append {s t : Text} (h : Misses m previous s t) :
    replaceAll m new previous (s ++ t) = s ++ replaceAll m new (lastOr previous s) t := by
  induction s generalizing previous with
  | nil => rfl
  | cons c s ih =>
    rw [List.cons_append, replaceAll]
    have hnone : m previous (c :: (s ++ t)) = none := h.1
    rw [hnone]
    show c :: replaceAll m new (some c) (s ++ t) = _
    rw [ih h.2, lastOr_cons, List.cons_append]

/-- A pattern that matches nowhere replaces nothing. -/
theorem replaceAll_of_misses {t : Text} (h : Misses m previous t []) :
    replaceAll m new previous t = t := by
  have happ : replaceAll m new previous (t ++ []) = t ++ replaceAll m new (lastOr previous t) [] :=
    replaceAll_append h
  rwa [List.append_nil, replaceAll_nil, List.append_nil] at happ

/-- A match is replaced, and the scan goes on behind it. -/
theorem replaceAll_of_match {u rest : Text} (hu : u ≠ []) (h : m previous (u ++ rest) = some rest) :
    replaceAll m new previous (u ++ rest) = new ++ replaceAll m new (lastOr previous u) rest := by
  obtain ⟨c, u, rfl⟩ := List.exists_cons_of_ne_nil hu
  rw [List.cons_append] at h ⊢
  rw [replaceAll, h]
  have hlen : (c :: (u ++ rest)).length - rest.length = (c :: u).length := by
    rw [← List.cons_append, List.length_append, Nat.add_sub_cancel]
  have hlt : rest.length < (c :: (u ++ rest)).length := by
    simp only [List.length_cons, List.length_append]
    omega
  show (if rest.length < (c :: (u ++ rest)).length then _ else _) = _
  rw [if_pos hlt, hlen, ← List.cons_append, List.take_left]

/-- **What a replacement changes** has the new text in it. -/
theorem mem_replaceAll {t : Text} {c : Char} (hc : c ∈ new) (h : replaceAll m new previous t ≠ t) :
    c ∈ replaceAll m new previous t := by
  induction t generalizing previous with
  | nil => exact absurd replaceAll_nil h
  | cons d t ih =>
    have hstep : c ∈ replaceAll m new previous (d :: t) ∨
        replaceAll m new previous (d :: t) = d :: replaceAll m new (some d) t := by
      rw [replaceAll]
      split
      · split_ifs
        · exact .inl (List.mem_append_left _ hc)
        · exact .inr rfl
      · exact .inr rfl
    rcases hstep with hmem | heq
    · exact hmem
    · rw [heq] at h ⊢
      exact List.mem_cons_of_mem _ (ih fun hsame => h (congrArg (d :: ·) hsame))

/-- **A pattern with one match** cuts it out, and nothing else. -/
theorem replaceAll_eq {s u t : Text} (hu : u ≠ []) (hs : Misses m previous s (u ++ t))
    (hm : m (lastOr previous s) (u ++ t) = some t)
    (ht : Misses m (lastOr previous (s ++ u)) t []) :
    replaceAll m new previous (s ++ (u ++ t)) = s ++ (new ++ t) := by
  rw [replaceAll_append hs, replaceAll_of_match hu hm, ← lastOr_append, replaceAll_of_misses ht]

/-- The character before a text matters only for what is read at its start. -/
theorem replaceAll_congr {previous' : Option Char} (h : ∀ t, m previous t = m previous' t) (t : Text) :
    replaceAll m new previous t = replaceAll m new previous' t := by
  cases t with
  | nil => rw [replaceAll_nil, replaceAll_nil]
  | cons c t =>
    rw [replaceAll, replaceAll, h]
    split
    · rename_i rest _
      by_cases hlt : rest.length < (c :: t).length
      · obtain ⟨n, hn⟩ := Nat.exists_eq_add_of_lt (Nat.sub_pos_of_lt hlt)
        rw [if_pos hlt, if_pos hlt, hn, Nat.zero_add, List.take_succ_cons, lastOr_cons, lastOr_cons]
      · rw [if_neg hlt, if_neg hlt]
    · rfl

/-- **A replacement splits at a character** that the pattern takes for the end of the text. -/
theorem replaceAll_append_cons {c : Char} {t : Text}
    (h : ∀ previous u, m previous (u ++ c :: t) = (m previous u).map (· ++ c :: t))
    (previous : Option Char) (s : Text) :
    replaceAll m new previous (s ++ c :: t) =
      replaceAll m new previous s ++ c :: replaceAll m new (some c) t := by
  induction hn : s.length using Nat.strong_induction_on generalizing previous s with
  | _ n ih =>
    cases s with
    | nil =>
      have hend := h previous []
      rw [List.nil_append] at hend
      rw [replaceAll_nil, List.nil_append, List.nil_append, replaceAll, hend]
      cases m previous [] with
      | none => rfl
      | some rest =>
        have hlonger : ¬(rest ++ c :: t).length < (c :: t).length := by
          rw [List.length_append]
          omega
        dsimp only [Option.map_some]
        rw [if_neg hlonger]
    | cons d u =>
      have hskip := ih u.length (by rw [← hn]; simp) (some d) u rfl
      rw [List.cons_append, replaceAll, replaceAll, ← List.cons_append, h]
      cases m previous (d :: u) with
      | none => exact congrArg (d :: ·) hskip
      | some rest =>
        dsimp only [Option.map_some]
        have hlength : (rest ++ c :: t).length < (d :: u ++ c :: t).length ↔
            rest.length < (d :: u).length := by
          rw [List.length_append, List.length_append]
          omega
        by_cases hlt : rest.length < (d :: u).length
        · have htake : (d :: u ++ c :: t).take ((d :: u ++ c :: t).length - (rest ++ c :: t).length) =
              (d :: u).take ((d :: u).length - rest.length) := by
            rw [List.length_append, List.length_append, Nat.add_sub_add_right]
            exact List.take_append_of_le_length (Nat.sub_le _ _)
          rw [if_pos hlt, if_pos (hlength.2 hlt), htake, ih rest.length (hn ▸ hlt) _ rest rfl,
            List.append_assoc]
        · rw [if_neg hlt, if_neg (mt hlength.1 hlt)]
          exact congrArg (d :: ·) hskip

/-- **A pattern stops at a character**: what it reads in front of the character, if it
reads anything there, does not depend on what follows it. -/
def StopsAt (m : Option Char → Text → Option Text) (c : Char) : Prop :=
  ∀ previous u, (∀ t, m previous (u ++ c :: t) = none) ∨
    ∃ w v, w ≠ [] ∧ u = w ++ v ∧ ∀ t, m previous (u ++ c :: t) = some (v ++ c :: t)

/-- **What a pattern takes out in front of a character it stops at** does not depend on
what follows the character, which is kept. -/
theorem exists_replaceAll_of_stopsAt {c : Char} (h : StopsAt m c) (previous : Option Char) (s : Text) :
    ∃ s', s'.Sublist s ∧ ∀ t, replaceAll m [] previous (s ++ c :: t) =
      s' ++ c :: replaceAll m [] (some c) t := by
  induction hn : s.length using Nat.strong_induction_on generalizing previous s with
  | _ n ih =>
    rcases h previous s with hnone | ⟨w, v, hw, rfl, hm⟩
    · cases s with
      | nil =>
        refine ⟨[], List.Sublist.slnil, fun t => ?_⟩
        exact replaceAll_append (s := [c]) ⟨hnone t, trivial⟩
      | cons d s =>
        obtain ⟨s', hs', heq⟩ := ih s.length (by rw [← hn]; simp) (some d) s rfl
        refine ⟨d :: s', hs'.cons_cons d, fun t => ?_⟩
        have hstep : replaceAll m [] previous ([d] ++ (s ++ c :: t)) =
            [d] ++ replaceAll m [] (some d) (s ++ c :: t) := replaceAll_append ⟨hnone t, trivial⟩
        exact hstep.trans (congrArg (d :: ·) (heq t))
    · have hlength : v.length < n := by
        have hpos := List.length_pos_of_ne_nil hw
        rw [List.length_append] at hn
        omega
      obtain ⟨v', hv', heq⟩ := ih v.length hlength (lastOr previous w) v rfl
      refine ⟨v', hv'.trans (List.sublist_append_right w v), fun t => ?_⟩
      have hmatch := hm t
      rw [List.append_assoc] at hmatch ⊢
      rw [replaceAll_of_match hw hmatch, List.nil_append, heq]

theorem replaceAll_of_stopsAt {c : Char} (h : StopsAt m c) (previous : Option Char) (s t : Text) :
    replaceAll m [] previous (s ++ c :: t) =
      replaceAll m [] previous (s ++ [c]) ++ replaceAll m [] (some c) t := by
  obtain ⟨s', _, heq⟩ := exists_replaceAll_of_stopsAt h previous s
  rw [heq, heq, replaceAll_nil]
  simp

/-- **Between two characters a pattern stops at**, what it takes out does not depend on
what stands around them. -/
theorem exists_replaceAll_between {c d : Char} (hc : StopsAt m c) (hd : StopsAt m d) (inner : Text) :
    ∃ inner', inner'.Sublist inner ∧ ∀ previous t,
      replaceAll m [] previous (c :: (inner ++ d :: t)) =
        c :: (inner' ++ d :: replaceAll m [] (some d) t) := by
  obtain ⟨inner', hinner, heq⟩ := exists_replaceAll_of_stopsAt hd (some c) inner
  refine ⟨inner', hinner, fun previous t => ?_⟩
  obtain ⟨s, hs, hfirst⟩ := exists_replaceAll_of_stopsAt hc previous []
  rw [List.sublist_nil.1 hs] at hfirst
  exact (hfirst _).trans (congrArg (c :: ·) (heq t))

/-- **What is taken out leaves the rest in its order**, where what follows a match is the
end of the text. -/
theorem replaceAll_sublist (h : ∀ {previous t rest}, m previous t = some rest → rest <:+ t)
    (previous : Option Char) (t : Text) : (replaceAll m [] previous t).Sublist t := by
  induction hn : t.length using Nat.strong_induction_on generalizing previous t with
  | _ n ih =>
    cases t with
    | nil => rw [replaceAll_nil]
    | cons c t =>
      have hskip : (c :: replaceAll m [] (some c) t).Sublist (c :: t) :=
        (ih t.length (by rw [← hn]; simp) (some c) t rfl).cons_cons c
      rw [replaceAll]
      split
      · rename_i rest hrest
        split_ifs with hlt
        · exact (ih rest.length (hn ▸ hlt) _ rest rfl).trans (h hrest).sublist
        · exact hskip
      · exact hskip

end Replace

/-! ## Occurrences -/

/-- **An occurrence does not reach across a character it lacks**: it lies in
front of that character, or behind it. -/
theorem split_occurrence {s t x w y : Text} {c : Char} (hc : c ∉ w)
    (h : s ++ c :: t = x ++ (w ++ y)) :
    (∃ z, s = x ++ (w ++ z) ∧ y = z ++ c :: t) ∨ ∃ z, x = s ++ c :: z ∧ t = z ++ (w ++ y) := by
  rcases List.append_eq_append_iff.1 h with ⟨z, hx, ht⟩ | ⟨z, hs, hwy⟩
  · cases z with
    | nil =>
      rw [List.append_nil] at hx
      cases w with
      | nil => exact .inl ⟨[], by rw [hx]; simp, by rw [List.nil_append, ht]; rfl⟩
      | cons d w =>
        obtain ⟨rfl, _⟩ := List.cons.inj ht
        exact absurd List.mem_cons_self hc
    | cons d z =>
      obtain ⟨rfl, rfl⟩ := List.cons.inj ht
      exact .inr ⟨z, hx, rfl⟩
  · rcases List.append_eq_append_iff.1 hwy with ⟨v, hz, hy⟩ | ⟨v, hw, hct⟩
    · exact .inl ⟨v, by rw [hs, hz], hy⟩
    · cases v with
      | nil => exact .inl ⟨[], by rw [hs, hw, List.append_nil, List.append_nil], hct.symm⟩
      | cons d v =>
        obtain ⟨rfl, _⟩ := List.cons.inj hct
        exact absurd (by rw [hw]; simp) hc

/-- A character that is missing behind a text stands in it. -/
theorem in_front_of {s t x y : Text} {c : Char} (hc : c ∉ t) (heq : s ++ t = x ++ c :: y) :
    ∃ z, s = x ++ c :: z := by
  rcases List.append_eq_append_iff.1 heq with ⟨z, _, ht⟩ | ⟨z, hs, hcy⟩
  · exact absurd (by rw [ht]; simp) hc
  · cases z with
    | nil => exact absurd (by rw [← hcy.trans (List.nil_append t)]; simp) hc
    | cons d z =>
      obtain ⟨rfl, _⟩ := List.cons.inj hcy
      exact ⟨z, hs⟩

/-- **The first of a character** splits a text in one way. -/
theorem append_cons_inj {s s' t t' : Text} {c : Char} (hs : c ∉ s) (hs' : c ∉ s')
    (h : s ++ c :: t = s' ++ c :: t') : s = s' ∧ t = t' := by
  rcases List.append_eq_append_iff.1 h with ⟨z, rfl, hz⟩ | ⟨z, rfl, hz⟩
  all_goals
    cases z with
    | nil => simp_all
    | cons d z =>
      obtain ⟨rfl, _⟩ := List.cons.inj hz
      simp at hs hs'

/-- **A text occurs nowhere** in another one. -/
def Avoids (w t : Text) : Prop :=
  ∀ x y, t ≠ x ++ (w ++ y)

namespace Avoids

variable {w s t : Text} {c : Char}

theorem append (hc : c ∉ w) (hs : Avoids w s) (ht : Avoids w t) : Avoids w (s ++ c :: t) := by
  intro x y heq
  rcases split_occurrence hc heq with ⟨z, hs', _⟩ | ⟨z, _, ht'⟩
  · exact hs x z hs'
  · exact ht z y ht'

theorem cons (hc : c ∉ w) (ht : Avoids w t) : Avoids w (c :: t) := by
  intro x y heq
  rcases split_occurrence (s := []) hc heq with ⟨z, hs, _⟩ | ⟨z, _, ht'⟩
  · obtain ⟨rfl, hwz⟩ := List.append_eq_nil_iff.1 hs.symm
    obtain ⟨rfl, rfl⟩ := List.append_eq_nil_iff.1 hwz
    exact ht [] t rfl
  · exact ht z y ht'

/-- A character a text does not end in adds no occurrence of it. -/
theorem concat (hc : w.getLast? ≠ some c) (ht : Avoids w t) : Avoids w (t ++ [c]) := by
  intro x y heq
  rcases List.eq_nil_or_concat y with rfl | ⟨y, d, rfl⟩
  · cases hw : w.getLast? with
    | none =>
      obtain rfl := List.getLast?_eq_none_iff.1 hw
      exact ht [] t rfl
    | some d =>
      have hlast := congrArg List.getLast? heq
      rw [List.append_nil, List.getLast?_concat, List.getLast?_append, hw] at hlast
      exact hc (hw.trans hlast.symm)
  · rw [List.concat_eq_append, ← List.append_assoc, ← List.append_assoc] at heq
    exact ht x y (by rw [List.append_inj_left' heq rfl, List.append_assoc])

/-- What holds a character does not occur where that is missing. -/
theorem of_not_mem (hc : c ∈ w) (ht : c ∉ t) : Avoids w t := by
  rintro x y rfl
  simp [hc] at ht

end Avoids

/-! ## Blanks and lines -/

/-- The characters that continue a name lie between `$` and `z`. -/
theorem toNat_of_isNameChar {c : Char} (h : isNameChar c = true) :
    36 ≤ c.toNat ∧ c.toNat ≤ 122 := by
  delta isNameChar Char.isAlphanum Char.isAlpha Char.isUpper Char.isLower Char.isDigit at h
  simp only [Bool.or_eq_true, Bool.and_eq_true, decide_eq_true_eq, ge_iff_le, UInt32.le_iff_toNat_le,
    beq_iff_eq, Char.toNat_val] at h
  rcases h with ((((h | h) | h) | rfl) | rfl)
  · exact ⟨le_trans (by decide) h.1, le_trans h.2 (by decide)⟩
  · exact ⟨le_trans (by decide) h.1, le_trans h.2 (by decide)⟩
  · exact ⟨le_trans (by decide) h.1, le_trans h.2 (by decide)⟩
  · decide
  · decide

/-- No blank continues a name. -/
theorem isBlank_of_isNameChar {c : Char} (h : isNameChar c = true) : isBlank c = false := by
  obtain ⟨hlow, hhigh⟩ := toNat_of_isNameChar h
  simp only [isBlank, Bool.or_eq_false_iff, Bool.and_eq_false_iff, decide_eq_false_iff_not,
    beq_eq_false_iff_ne]
  omega

/-- A blank is none of the other characters. -/
theorem ne_of_isBlank {c d : Char} (hc : isBlank c = true) (hd : isBlank d = false) : c ≠ d := by
  rintro rfl
  rw [hd] at hc
  cases hc

/-- What is not blank does not stand among blanks. -/
theorem not_mem_of_blank {blanks : Text} {c : Char} (hb : ∀ c ∈ blanks, isBlank c = true)
    (hc : isBlank c = false) : c ∉ blanks := by
  intro h
  rw [hb c h] at hc
  cases hc

/-- Blanks behind a place do not continue a name there. -/
theorem continuesName_append_blanks {x blanks : Text} (hb : ∀ c ∈ blanks, isBlank c = true)
    (hx : continuesName x.getLast? = false) : continuesName (x ++ blanks).getLast? = false := by
  rcases List.eq_nil_or_concat blanks with rfl | ⟨front, c, rfl⟩
  · rwa [List.append_nil]
  · rw [List.concat_eq_append] at hb ⊢
    rw [← List.append_assoc, List.getLast?_append, List.getLast?_singleton]
    show isNameChar c = false
    by_contra hc
    have hblank := hb c (by simp)
    rw [isBlank_of_isNameChar (Bool.not_eq_false _ ▸ hc)] at hblank
    cases hblank

/-- Blanks in front of a text do not belong to what begins otherwise. -/
theorem behind_blanks {blanks s x w : Text} {c : Char} (hb : ∀ d ∈ blanks, isBlank d = true)
    (hc : isBlank c = false) (heq : blanks ++ s = x ++ c :: w) :
    ∃ z, x = blanks ++ z ∧ s = z ++ c :: w := by
  rcases List.append_eq_append_iff.1 heq with ⟨z, hx, hs⟩ | ⟨z, hblanks, hcw⟩
  · exact ⟨z, hx, hs⟩
  · cases z with
    | nil => exact ⟨[], by rw [hblanks, List.append_nil, List.append_nil], hcw.symm⟩
    | cons d z =>
      obtain ⟨rfl, _⟩ := List.cons.inj hcw
      rw [hb c (by rw [hblanks]; simp)] at hc
      cases hc

/-- A text is its blanks in front, and what follows them. -/
theorem eq_blanks_append (t : Text) :
    ∃ blanks, (∀ c ∈ blanks, isBlank c = true) ∧ t = blanks ++ t.dropWhile isBlank :=
  ⟨t.takeWhile isBlank, fun _ hc => List.mem_takeWhile_imp hc, List.takeWhile_append_dropWhile.symm⟩

/-- Blanks end where a character that is not blank stands. -/
theorem dropWhile_blanks {blanks : Text} {c : Char} (t : Text)
    (hb : ∀ c ∈ blanks, isBlank c = true) (hc : isBlank c = false) :
    (blanks ++ c :: t).dropWhile isBlank = c :: t := by
  rw [List.dropWhile_append_of_pos hb, List.dropWhile_cons_of_neg (by rw [hc]; exact Bool.false_ne_true)]

/-- What is not blank ends the blanks in front of a text. -/
theorem dropWhile_append_cons {c : Char} (hc : isBlank c = false) (u t : Text) :
    (u ++ c :: t).dropWhile isBlank = u.dropWhile isBlank ++ c :: t := by
  rw [List.dropWhile_append]
  split
  · rename_i h
    rw [List.isEmpty_iff.1 h, List.dropWhile_cons_of_neg (by simp [hc])]
    rfl
  · rfl

theorem takeWhile_blanks {blanks : Text} {c : Char} (t : Text)
    (hb : ∀ c ∈ blanks, isBlank c = true) (hc : isBlank c = false) :
    (blanks ++ c :: t).takeWhile isBlank = blanks := by
  rw [List.takeWhile_append_of_pos hb, List.takeWhile_cons_of_neg (by rw [hc]; exact Bool.false_ne_true),
    List.append_nil]

/-- A pattern that does not begin with a blank is read behind all the blanks. -/
theorem skipBlanks?_eq {p : Text → Option α} (hp : ∀ c t, isBlank c = true → p (c :: t) = none)
    (t : Text) : skipBlanks? p t = p (t.dropWhile isBlank) := by
  induction t with
  | nil => rfl
  | cons c cs ih =>
    rw [skipBlanks?]
    split
    · rename_i hc
      rw [ih, List.dropWhile_cons_of_pos hc, hp c cs hc]
      cases p (cs.dropWhile isBlank) <;> rfl
    · rename_i hc
      rw [List.dropWhile_cons_of_neg hc]

/-- What is read behind blanks is read behind some of them. -/
theorem exists_of_skipBlanks? {p : Text → Option α} {t : Text} {a : α}
    (h : skipBlanks? p t = some a) :
    ∃ blanks u, (∀ c ∈ blanks, isBlank c = true) ∧ t = blanks ++ u ∧ p u = some a := by
  induction t with
  | nil => exact ⟨[], [], by simp, rfl, h⟩
  | cons c cs ih =>
    have hhere : p (c :: cs) = some a → ∃ blanks u, (∀ c ∈ blanks, isBlank c = true) ∧
        c :: cs = blanks ++ u ∧ p u = some a := fun hp => ⟨[], c :: cs, by simp, rfl, hp⟩
    rw [skipBlanks?] at h
    split at h
    · rename_i hc
      split at h
      · rename_i b hb
        obtain rfl := Option.some.inj h
        obtain ⟨blanks, u, hblanks, rfl, hu⟩ := ih hb
        exact ⟨c :: blanks, u, List.forall_mem_cons.2 ⟨hc, hblanks⟩, rfl, hu⟩
      · exact hhere h
    · exact hhere h

/-- What can be read behind some blanks is read behind blanks. -/
theorem exists_skipBlanks? {p : Text → Option α} {blanks u : Text} {a : α}
    (hblanks : ∀ c ∈ blanks, isBlank c = true) (hu : p u = some a) :
    ∃ b, skipBlanks? p (blanks ++ u) = some b := by
  induction blanks with
  | nil =>
    cases u with
    | nil => exact ⟨a, hu⟩
    | cons c cs =>
      rw [List.nil_append, skipBlanks?, hu]
      split
      · cases hcs : skipBlanks? p cs with
        | none => exact ⟨a, rfl⟩
        | some b => exact ⟨b, rfl⟩
      · exact ⟨a, rfl⟩
  | cons c cs ih =>
    obtain ⟨hc, hcs⟩ := List.forall_mem_cons.1 hblanks
    obtain ⟨b, hb⟩ := ih hcs
    exact ⟨b, by rw [List.cons_append, skipBlanks?, if_pos hc, hb]⟩

/-- What follows a line is behind the first line feed. -/
theorem afterLine?_eq_some_iff {t rest : Text} :
    afterLine? t = some rest ↔ ∃ line, '\n' ∉ line ∧ t = line ++ '\n' :: rest := by
  induction t with
  | nil => simp [afterLine?]
  | cons c cs ih =>
    rw [afterLine?]
    split
    · rename_i hc
      subst hc
      constructor
      · intro h
        exact ⟨[], List.not_mem_nil, by rw [Option.some.inj h, List.nil_append]⟩
      · rintro ⟨line, hl, h⟩
        cases line with
        | nil => rw [(List.cons.inj h).2]
        | cons d line =>
          obtain ⟨rfl, _⟩ := List.cons.inj h
          exact absurd List.mem_cons_self hl
    · rename_i hc
      rw [ih]
      constructor
      · rintro ⟨line, hl, rfl⟩
        exact ⟨c :: line, by simp [Ne.symm hc, hl], rfl⟩
      · rintro ⟨line, hl, h⟩
        cases line with
        | nil => exact absurd (List.cons.inj h).1 hc
        | cons d line =>
          obtain ⟨rfl, rfl⟩ := List.cons.inj h
          exact ⟨line, fun h => hl (List.mem_cons_of_mem _ h), rfl⟩

end Text

end Fabula
