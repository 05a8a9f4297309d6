import Fabula.Diff.Alignment
import Fabula.Diff.Sliding
import Mathlib.Data.List.Basic

/-!
# A script relates the two lists it was made for

A comparison of two lists of lines is a script: runs of lines that are kept, removed or added.
Which of several scripts is found depends on the cuts at which the lists are aligned, and these
are a matter of economy. What is to be shown here does not depend on them. Whatever the cuts are
worth, the script leads from the one list to the other (`relates_align`), and sliding its
added lines, for a reader's sake, changes neither side (`Script.sameSides_slide`).

Both are said of the two readings of a script, `Script.old` and `Script.new`. A reading of runs
put behind each other is the readings put behind each other, so it suffices to know both
readings of what each step of either function puts together.

## Aligning

The lists are split into a common start, a common end and what is between them, which is cut in
two, and each part is aligned by itself. Lines in common stand on both sides. A part in which no
cut is found is removed and added as a whole, which has the right readings also if there would
have been a better script. So has a part in which a cut is found that leaves one half as large
as the whole, and is not used. The induction is that of the definition, over the number of
lines.

## Sliding

Added lines between two runs of kept lines may be slid over the kept ones next to them when they
end or begin alike. In the reading of the new side the same lines stand in the same order, and
in that of the old side the added lines do not stand at all. The runs above are passed on in
reverse, so what is compared is a script around its middle (`Script.around`).
-/

namespace Fabula

/-- **What the two sides of a script are.** -/
def Script.Relates (s : Script) (as bs : List Text) : Prop :=
  s.old = as ∧ s.new = bs

namespace Script

variable {s t : Script} {as bs as' bs' : List Text}

theorem Relates.append (hs : s.Relates as bs) (ht : t.Relates as' bs') :
    Relates (s ++ t) (as ++ as') (bs ++ bs') := by
  refine ⟨?_, ?_⟩
  · rw [old_append, hs.1, ht.1]
  · rw [new_append, hs.2, ht.2]

/-- Lines that are kept stand on both sides. -/
theorem Relates.keep (lines : List Text) (hs : s.Relates as bs) :
    (push (.keep lines) s).Relates (lines ++ as) (lines ++ bs) := by
  refine ⟨?_, ?_⟩
  · rw [old_push, hs.1]
    rfl
  · rw [new_push, hs.2]
    rfl

end Script

theorem relates_replaceAllLines (as bs : List Text) : (replaceAllLines as bs).Relates as bs :=
  ⟨old_replaceAllLines as bs, new_replaceAllLines as bs⟩

/-- **The script of two lists leads from the one to the other.** -/
theorem relates_align (as bs : List Text) : (align as bs).Relates as bs := by
  induction as, bs using align.induct with
  | case1 as bs front as₁ bs₁ hfront back as₂ bs₂ hback ihtake ihdrop =>
    obtain ⟨has, hbs⟩ := commonStart_eq as bs
    obtain ⟨has₁, hbs₁⟩ := commonEnd_eq as₁ bs₁
    rw [hfront] at has hbs
    rw [hback] at has₁ hbs₁
    rw [align]
    simp only [hfront, hback]
    -- what both lists have in common is kept, so it is the middle that matters
    generalize hmiddle : (if as₂ = [] ∨ bs₂ = [] then replaceAllLines as₂ bs₂ else _) = middle
    have h : middle.Relates as₂ bs₂ := by
      rw [← hmiddle]
      split
      · exact relates_replaceAllLines as₂ bs₂
      · split
        · rename_i x y _
          split
          · rename_i hsmaller
            have hcut := (ihtake x y hsmaller).append (ihdrop x y hsmaller)
            rwa [List.take_append_drop, List.take_append_drop] at hcut
          · exact relates_replaceAllLines as₂ bs₂
        · exact relates_replaceAllLines as₂ bs₂
    have hend : (Script.push (.keep back) []).Relates back back := by
      have hnil : Script.Relates [] [] [] := ⟨rfl, rfl⟩
      have hkeep := hnil.keep back
      rwa [List.append_nil] at hkeep
    have hall := (h.append hend).keep front
    rwa [← has₁, ← hbs₁, ← has, ← hbs] at hall

/-! ## Sliding -/

namespace Script

@[simp] theorem old_cons (run : Run) (s : Script) : old (run :: s) = run.old ++ old s :=
  List.flatMap_cons

@[simp] theorem new_cons (run : Run) (s : Script) : new (run :: s) = run.new ++ new s :=
  List.flatMap_cons

/-- Two scripts between the same lists. -/
def SameSides (s t : Script) : Prop :=
  s.old = t.old ∧ s.new = t.new

namespace SameSides

variable {s t u : Script}

theorem trans (h : SameSides s t) (h' : SameSides t u) : SameSides s u :=
  ⟨h.1.trans h'.1, h.2.trans h'.2⟩

end SameSides

/-- The script of which added lines are the middle: `above` has the runs above them, nearest
first. -/
def around (x : Script × List Text × Script) : Script :=
  x.1.reverse ++ .add x.2.1 :: x.2.2

theorem sameSides_keepFront (lines : List Text) (s : Script) :
    SameSides (keepFront lines s) (.keep lines :: s) := by
  unfold keepFront
  split
  · exact ⟨by simp [Run.old], by simp [Run.new]⟩
  · exact ⟨rfl, rfl⟩

/-- What is left of lines of which a common end was found is shorter. -/
theorem length_lt_of_commonEnd {kept lines common kept' lines' : List Text}
    (h : commonEnd kept lines = (common, kept', lines')) (hne : common ≠ []) :
    kept'.length < kept.length := by
  have hkept := (commonEnd_eq kept lines).1
  rw [h] at hkept
  rw [hkept, List.length_append]
  exact Nat.lt_add_of_pos_right (List.length_pos_of_ne_nil hne)

theorem length_lt_of_commonStart {kept lines common kept' lines' : List Text}
    (h : commonStart kept lines = (common, kept', lines')) (hne : common ≠ []) :
    kept'.length < kept.length := by
  have hkept := (commonStart_eq kept lines).1
  rw [h] at hkept
  rw [hkept, List.length_append]
  exact Nat.lt_add_of_pos_left (List.length_pos_of_ne_nil hne)

/-- **Added lines that are slid up change neither side.** -/
theorem sameSides_slideUp (above : Script) (lines : List Text) (below : Script) :
    SameSides (around (slideUp above lines below)) (around (above, lines, below)) := by
  induction above, lines, below using slideUp.induct with
  | case1 lines below =>
    rw [slideUp]
    exact ⟨rfl, rfl⟩
  | case2 lines below dropped above ih =>
    rw [slideUp]
    exact ih.trans ⟨by simp [around, Run.old], by simp [around, Run.new]⟩
  | case3 lines below more above ih =>
    rw [slideUp]
    exact ih.trans ⟨by simp [around, Run.old], by simp [around, Run.new]⟩
  | case4 lines below kept above kept' lines' h =>
    rw [slideUp, h]
    exact ⟨rfl, rfl⟩
  | case5 lines below kept above common lines' hne below' h hlt ih =>
    obtain ⟨hkept, hlines⟩ := commonEnd_eq kept lines
    rw [h] at hkept hlines
    have hfront := sameSides_keepFront common below
    rw [slideUp, h]
    simp only [hne, if_false, hlt, if_true]
    refine ih.trans ⟨?_, ?_⟩
    · simp [around, Run.old, below', hfront.1, hkept]
    · simp [around, Run.new, below', hfront.2, hkept, hlines]
  | case6 lines below kept above common kept' lines' h hne below' hlt hne' ih =>
    obtain ⟨hkept, hlines⟩ := commonEnd_eq kept lines
    rw [h] at hkept hlines
    have hfront := sameSides_keepFront common below
    rw [slideUp, h]
    simp only [hne, if_false, hlt, if_true, hne']
    refine ih.trans ⟨?_, ?_⟩
    · simp [around, Run.old, below', hfront.1, hkept]
    · simp [around, Run.new, below', hfront.2, hkept, hlines]
  | case7 lines below kept above common kept' lines' h hne hlt =>
    exact absurd (length_lt_of_commonEnd h hne) hlt

/-- Kept lines put behind runs that were passed. -/
def keepBack (lines : List Text) : Script → Script
  | .keep more :: above => .keep (more ++ lines) :: above
  | above => .keep lines :: above

theorem sameSides_keepBack (lines : List Text) (above : Script) :
    SameSides (keepBack lines above).reverse (Run.keep lines :: above).reverse := by
  unfold keepBack
  split
  · exact ⟨by simp [Run.old], by simp [Run.new]⟩
  · exact ⟨rfl, rfl⟩

/-- **Added lines that are slid down change neither side.** -/
theorem sameSides_slideDown (above : Script) (lines : List Text) (below : Script) :
    SameSides (around (slideDown above lines below)) (around (above, lines, below)) := by
  induction above, lines, below using slideDown.induct with
  | case1 above lines =>
    rw [slideDown]
    exact ⟨rfl, rfl⟩
  | case2 above lines dropped below ih =>
    rw [slideDown]
    exact ih.trans ⟨by simp [around, Run.old], by simp [around, Run.new]⟩
  | case3 above lines more below ih =>
    rw [slideDown]
    exact ih.trans ⟨by simp [around, Run.old], by simp [around, Run.new]⟩
  | case4 above lines kept below kept' lines' h =>
    rw [slideDown, h]
    exact ⟨rfl, rfl⟩
  | case5 above lines kept below common lines' hne above' h hlt ih =>
    obtain ⟨hkept, hlines⟩ := commonStart_eq kept lines
    rw [h] at hkept hlines
    have hback := sameSides_keepBack common above
    have habove : above' = keepBack common above := rfl
    rw [slideDown, h]
    simp only [hne, if_false, hlt, if_true]
    refine ih.trans ⟨?_, ?_⟩
    · simp [around, Run.old, habove, hback.1, hkept]
    · simp [around, Run.new, habove, hback.2, hkept, hlines]
  | case6 above lines kept below common kept' lines' h hne above' hlt hne' ih =>
    obtain ⟨hkept, hlines⟩ := commonStart_eq kept lines
    rw [h] at hkept hlines
    have hback := sameSides_keepBack common above
    have habove : above' = keepBack common above := rfl
    rw [slideDown, h]
    simp only [hne, if_false, hlt, if_true, hne']
    refine ih.trans ⟨?_, ?_⟩
    · simp [around, Run.old, habove, hback.1, hkept]
    · simp [around, Run.new, habove, hback.2, hkept, hlines]
  | case7 above lines kept below common kept' lines' h hne hlt =>
    exact absurd (length_lt_of_commonStart h hne) hlt

/-- **Sliding changes neither side of a script**, however many runs are visited. -/
theorem sameSides_slide_go (n : ℕ) (above s : Script) :
    SameSides (slide.go n above s) (above.reverse ++ s) := by
  induction n, above, s using slide.go.induct with
  | case1 n above =>
    rw [slide.go, List.append_nil]
    exact ⟨rfl, rfl⟩
  | case2 above s hs =>
    rw [slide.go]
    · exact ⟨rfl, rfl⟩
    · exact hs
  | case3 n above lines s above₁ lines₁ below₁ hup above₂ lines₂ below₂ hdown ih =>
    have h₁ := sameSides_slideUp above lines s
    have h₂ := sameSides_slideDown above₁ lines₁ below₁
    rw [hup] at h₁
    rw [hdown] at h₂
    rw [slide.go]
    simp only [hup, hdown]
    refine ih.trans ?_
    rw [List.reverse_cons, List.append_assoc]
    exact h₂.trans h₁
  | case4 n above run s hrun ih =>
    rw [slide.go]
    · rwa [List.reverse_cons, List.append_assoc] at ih
    · exact hrun

theorem sameSides_slide (s : Script) : SameSides (slide [] s) s :=
  sameSides_slide_go _ [] s

end Script

/-- **The script that is shown** leads from the one list to the other. -/
theorem relates_slide_align (as bs : List Text) : (Script.slide [] (align as bs)).Relates as bs := by
  have hsame := Script.sameSides_slide (align as bs)
  have halign := relates_align as bs
  exact ⟨hsame.1.trans halign.1, hsame.2.trans halign.2⟩

end Fabula
