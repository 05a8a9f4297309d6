import Fabula.Proofs.Engine
import Fabula.Proofs.Patch.Brace
import Fabula.Proofs.Text.Scan

/-!
# Where a container is found

`Container.locate` answers with a decomposition of the source: what stands in front of the
container, its header, its body, and what stands behind it. This module says that the
decomposition is determined by three things: a header of the name stands there, with a balanced
body behind it, and there is no header in front of it (`Container.locate_eq_ok_iff`). The header
may be written in several ways, with blanks before its brace, and before the `=` of a binding,
and it must not continue a name. All later statements about edits go through this equivalence,
and none looks at a search again.

## Finding it again

An edit rewrites the body and has to find the container again, in a text that is different from
there on. What could go wrong is that a header is found in front of the old one. The text in
front is the same as before, but a search looks ahead, so a header might begin in front of the
container and reach into what has been rewritten.

It does not, because a header ends at a brace and has no other brace in it
(`ContainerKind.IsHeader.eq_append_brace`). One that begins in front of the container cannot
reach beyond the brace of the container's own header. So it would have been found before, when
that brace was followed by something else (`ContainerKind.misses_through`). A name without an
opening brace is asked for here. With one, a header would not be bounded by the next brace.

Therefore a container whose body is rewritten by a balanced one is found again, in the same
place, whatever is written behind it (`Container.locate_rewritten`).

The statements are about the tireless engine. What it finds is found under every engine, or the
search is given up (`Container.isSteady_locate`).
-/

namespace Fabula

open scoped Engine.Tireless

namespace ContainerKind

/-! ## Headers -/

/-- **The ways a header may be written**: blanks may stand before the brace,
and before the `=` of a binding. -/
def IsHeader (kind : ContainerKind) (name header : Text) : Prop :=
  match kind with
  | property =>
    ∃ blanks, (∀ c ∈ blanks, isBlank c = true) ∧ header = name ++ ':' :: (blanks ++ ['{'])
  | binding =>
    ∃ before behind, (∀ c ∈ before, isBlank c = true) ∧ (∀ c ∈ behind, isBlank c = true) ∧
      header = name ++ (before ++ '=' :: (behind ++ ['{']))

/-- What an edit writes is a header. -/
theorem isHeader_opening (kind : ContainerKind) (name : Text) :
    kind.IsHeader name (kind.opening name) := by
  cases kind with
  | property => exact ⟨[' '], by decide, rfl⟩
  | binding => exact ⟨[' '], [' '], by decide, by decide, rfl⟩

theorem throughBrace?_eq_some_iff {t brace rest : Text} :
    throughBrace? t = some (brace, rest) ↔
      ∃ blanks, (∀ c ∈ blanks, isBlank c = true) ∧ brace = blanks ++ ['{'] ∧
        t = blanks ++ '{' :: rest := by
  have hbrace : isBlank '{' = false := by decide
  constructor
  · intro h
    unfold throughBrace? at h
    split at h
    · rename_i rest' hd
      obtain ⟨rfl, rfl⟩ := Prod.mk.inj (Option.some.inj h)
      refine ⟨t.takeWhile isBlank, fun c hc => List.mem_takeWhile_imp hc, rfl, ?_⟩
      rw [← hd, List.takeWhile_append_dropWhile]
    · cases h
  · rintro ⟨blanks, hb, rfl, rfl⟩
    unfold throughBrace?
    rw [Text.dropWhile_blanks rest hb hbrace, Text.takeWhile_blanks rest hb hbrace]
    rfl

/-- **A header is read where it is written.** -/
theorem header?_eq_some_iff {kind : ContainerKind} {name t header rest : Text} :
    header? kind name t = some (header, rest) ↔ kind.IsHeader name header ∧ t = header ++ rest := by
  have heq : isBlank '=' = false := by decide
  unfold header?
  rw [Option.bind_eq_bind, Option.bind_eq_some_iff]
  cases kind with
  | property =>
    constructor
    · rintro ⟨u, hu, h⟩
      obtain rfl := Text.after?_eq_some_iff.1 hu
      dsimp only at h
      split at h
      · obtain ⟨⟨brace, r⟩, hr, h⟩ := Option.bind_eq_some_iff.1 h
        obtain ⟨rfl, rfl⟩ := Prod.mk.inj (Option.some.inj h)
        obtain ⟨blanks, hb, rfl, rfl⟩ := throughBrace?_eq_some_iff.1 hr
        exact ⟨⟨blanks, hb, rfl⟩, by simp⟩
      · cases h
    · rintro ⟨⟨blanks, hb, rfl⟩, rfl⟩
      refine ⟨':' :: (blanks ++ '{' :: rest), Text.after?_eq_some_iff.2 (by simp), ?_⟩
      show (throughBrace? (blanks ++ '{' :: rest)).bind _ = _
      rw [throughBrace?_eq_some_iff.2 ⟨blanks, hb, rfl, rfl⟩]
      rfl
  | binding =>
    constructor
    · rintro ⟨u, hu, h⟩
      obtain rfl := Text.after?_eq_some_iff.1 hu
      dsimp only at h
      split at h
      · rename_i v hv
        obtain ⟨⟨brace, r⟩, hr, h⟩ := Option.bind_eq_some_iff.1 h
        obtain ⟨rfl, rfl⟩ := Prod.mk.inj (Option.some.inj h)
        obtain ⟨behind, hb, rfl, rfl⟩ := throughBrace?_eq_some_iff.1 hr
        refine ⟨⟨u.takeWhile isBlank, behind, fun c hc => List.mem_takeWhile_imp hc, hb, ?_⟩, ?_⟩
        · simp
        · conv_lhs => rw [← List.takeWhile_append_dropWhile (p := isBlank) (l := u), hv]
          simp
      · cases h
    · rintro ⟨⟨before, behind, hbefore, hbehind, rfl⟩, rfl⟩
      refine ⟨before ++ '=' :: (behind ++ '{' :: rest), Text.after?_eq_some_iff.2 (by simp), ?_⟩
      dsimp only
      rw [Text.dropWhile_blanks _ hbefore heq, Text.takeWhile_blanks _ hbefore heq]
      show (throughBrace? (behind ++ '{' :: rest)).bind _ = _
      rw [throughBrace?_eq_some_iff.2 ⟨behind, hbehind, rfl, rfl⟩]
      simp

theorem headerAt?_eq_some_iff {kind : ContainerKind} {name t header rest : Text}
    {previous : Option Char} :
    headerAt? kind name previous t = some (header, rest) ↔
      continuesName previous = false ∧ kind.IsHeader name header ∧ t = header ++ rest := by
  unfold headerAt?
  split
  · rename_i h
    simp [h]
  · rename_i h
    rw [header?_eq_some_iff]
    simp [h]

/-- Behind the name, a header has one brace, at its end. -/
theorem IsHeader.exists_between {kind : ContainerKind} {name header : Text}
    (h : kind.IsHeader name header) :
    ∃ between, '{' ∉ between ∧ header = name ++ (between ++ ['{']) := by
  have hblank : ∀ {blanks : Text}, (∀ c ∈ blanks, isBlank c = true) → '{' ∉ blanks :=
    fun hb => Text.not_mem_of_blank hb (by decide)
  cases kind with
  | property =>
    obtain ⟨blanks, hb, rfl⟩ := h
    exact ⟨':' :: blanks, by simp [hblank hb], by simp⟩
  | binding =>
    obtain ⟨before, behind, hbefore, hbehind, rfl⟩ := h
    exact ⟨before ++ '=' :: behind, by simp [hblank hbefore, hblank hbehind], by simp⟩

/-- A header of a name without braces has one brace, at its end. -/
theorem IsHeader.eq_append_brace {kind : ContainerKind} {name header : Text}
    (h : kind.IsHeader name header) (hname : '{' ∉ name) :
    ∃ front, '{' ∉ front ∧ header = front ++ ['{'] := by
  obtain ⟨between, hbetween, rfl⟩ := h.exists_between
  exact ⟨name ++ between, by simp [hname, hbetween], by simp⟩

theorem IsHeader.ne_nil {kind : ContainerKind} {name header : Text}
    (h : kind.IsHeader name header) : header ≠ [] := by
  obtain ⟨between, _, rfl⟩ := h.exists_between
  simp

/-- **A search for headers does not look behind a brace**: what it passes over
in front of one, it passes over whatever follows. -/
theorem misses_through {kind : ContainerKind} {name front w s : Text} {previous : Option Char}
    (hname : '{' ∉ name) (t : Text)
    (h : Text.Misses (kind.headerAt? name) previous front (w ++ '{' :: s)) :
    Text.Misses (kind.headerAt? name) previous front (w ++ '{' :: t) := by
  rw [Text.misses_iff] at h ⊢
  intro x c y hfront
  by_contra hsome
  obtain ⟨⟨header, rest⟩, hm⟩ := Option.ne_none_iff_exists'.1 hsome
  obtain ⟨hprev, hheader, ht⟩ := headerAt?_eq_some_iff.1 hm
  obtain ⟨stem, hstem, rfl⟩ := hheader.eq_append_brace hname
  -- the header found ends at a brace, so it lies in front of the brace after `w` or ends with it
  rw [← List.append_assoc, List.append_assoc stem] at ht
  have hfound : ∃ rest', c :: y ++ (w ++ '{' :: s) = stem ++ ['{'] ++ rest' := by
    rcases Text.split_occurrence (x := []) hstem ht with ⟨z, hz, hrest⟩ | ⟨z, hz, _⟩
    · rw [← List.append_assoc, hz]
      cases z with
      | nil => exact ⟨s, by simp⟩
      | cons d z =>
        obtain ⟨rfl, _⟩ := List.cons.inj hrest
        exact ⟨z ++ '{' :: s, by simp⟩
    · exact absurd hz.symm (List.append_ne_nil_of_right_ne_nil _ (List.cons_ne_nil _ _))
  obtain ⟨rest', hrest'⟩ := hfound
  have := h x c y hfront
  rw [headerAt?_eq_some_iff.2 ⟨hprev, hheader, hrest'⟩] at this
  cases this

end ContainerKind

namespace Container

/-! ## Locating -/

/-- **Where a container is found**: at the first header of its name, with a
balanced body behind it. -/
theorem locate_eq_ok_iff {kind : ContainerKind} {name source : Text} {c : Container} :
    locate kind name source = .ok c ↔
      (c.kind = kind ∧ c.name = name) ∧
      source = c.front ++ (c.header ++ (c.body ++ '}' :: c.rest)) ∧
      kind.IsHeader name c.header ∧ continuesName c.front.getLast? = false ∧
      Brace.IsBalanced c.body ∧
      Text.Misses (kind.headerAt? name) none c.front (c.header ++ (c.body ++ '}' :: c.rest)) := by
  rw [locate_tireless]
  constructor
  · intro h
    split at h
    · cases h
    · rename_i front header behind hs
      split at h
      · cases h
      · rename_i body rest hb
        obtain rfl := Except.ok.inj h
        obtain ⟨hbehind, hbalanced⟩ := Brace.body?_eq_some_iff.1 hb
        obtain ⟨t, hsource, hm, hmiss⟩ := Text.search?_eq_some_iff.1 hs
        rw [Text.lastOr_none] at hm
        obtain ⟨hprev, hheader, ht⟩ := ContainerKind.headerAt?_eq_some_iff.1 hm
        rw [hbehind] at ht
        rw [ht] at hsource hmiss
        exact ⟨⟨rfl, rfl⟩, hsource, hheader, hprev, hbalanced, hmiss⟩
  · rintro ⟨⟨rfl, rfl⟩, hsource, hheader, hprev, hbalanced, hmiss⟩
    have hs : Text.search? (c.kind.headerAt? c.name) none source =
        some (c.front, c.header, c.body ++ '}' :: c.rest) := by
      refine Text.search?_eq_some_iff.2 ⟨_, hsource, ?_, hmiss⟩
      rw [Text.lastOr_none]
      exact ContainerKind.headerAt?_eq_some_iff.2 ⟨hprev, hheader, rfl⟩
    rw [hs]
    dsimp only
    rw [Brace.body?_eq_some_iff.2 ⟨rfl, hbalanced⟩]

/-- **A container is found again** when its body is rewritten, whatever is
written behind it. -/
theorem locate_rewritten {kind : ContainerKind} {name source body : Text} {c : Container}
    (h : locate kind name source = .ok c) (hname : '{' ∉ name) (hbody : Brace.IsBalanced body)
    (rest : Text) :
    locate kind name (c.front ++ (c.header ++ (body ++ '}' :: rest))) =
      .ok { c with body := body, rest := rest } := by
  obtain ⟨hc, _, hheader, hprev, _, hmiss⟩ := locate_eq_ok_iff.1 h
  refine locate_eq_ok_iff.2 ⟨hc, rfl, hheader, hprev, hbody, ?_⟩
  obtain ⟨stem, _, hstem⟩ := hheader.eq_append_brace hname
  rw [hstem, List.append_assoc] at hmiss
  show Text.Misses _ none c.front (c.header ++ _)
  rw [hstem, List.append_assoc]
  exact ContainerKind.misses_through hname _ hmiss

end Container

end Fabula
