import Fabula.Diff.Hunk
import Fabula.Proofs.Diff.Alignment

/-!
# The parts of a comparison, and its hunks

What is shown of a comparison are hunks, and a hunk is some parts of it: changes, with the
stretches of kept lines around them. A part has the numbers of its first lines on either side. A
reader will rely on these, so they have to be right, and the question is what can be said of
parts of which some have been left out.

The parts of a script lie side by side: each begins on either side where the one before it ends,
and together they have all lines (`Part.Tile`, `Script.tile_parts`). This is proved along the
script, with the change that is being collected as a parameter. Numbers are counted by the same
recursion that counts the lines, and the two agree.

## Leaving out

Showing hunks instead of parts leaves lines out, but only lines that both sides have, and no
part is moved by that. A list of parts compares two lists of lines if it lies side by side but
for such lines (`Part.Compare`). That is closed under everything that is done to get the hunks:
to leave out a stretch, wherever it is, to shorten one from the front or from the end, and to
show the lines of one stretch as two (`Part.Compare.leaveOut`, `Hunk.compare_split`). So hunks
compare the two lists, however many lines of context are kept (`Hunk.compare_of`).

No line of a change is left out by any of these, as they are about stretches only.
-/

namespace Fabula

namespace Part

/-- **Parts that lie side by side**, from line `i` of the old side and line `j` of the new one on:
they have all the old and all the new lines, in order. -/
inductive Tile : ℕ → ℕ → List Text → List Text → List Part → Prop
  | done {i j : ℕ} : Tile i j [] [] []
  | same {i j : ℕ} {old new : List Text} {ps : List Part} (lines : List Text)
      (h : Tile (i + lines.length) (j + lines.length) old new ps) :
      Tile i j (lines ++ old) (lines ++ new) (.same i j lines :: ps)
  | change {i j : ℕ} {old new : List Text} {ps : List Part} (removed added : List Text)
      (h : Tile (i + removed.length) (j + added.length) old new ps) :
      Tile i j (removed ++ old) (added ++ new) (.change i j removed added :: ps)

/-- **Parts that compare two lists of lines**, from line `i` of the old side and line `j` of the
new one on. They lie side by side, but for lines that both sides have and that are left out. -/
inductive Compare : ℕ → ℕ → List Text → List Text → List Part → Prop
  | done {i j : ℕ} : Compare i j [] [] []
  | skip {i j : ℕ} {old new : List Text} {ps : List Part} (lines : List Text)
      (h : Compare (i + lines.length) (j + lines.length) old new ps) :
      Compare i j (lines ++ old) (lines ++ new) ps
  | same {i j : ℕ} {old new : List Text} {ps : List Part} (lines : List Text)
      (h : Compare (i + lines.length) (j + lines.length) old new ps) :
      Compare i j (lines ++ old) (lines ++ new) (.same i j lines :: ps)
  | change {i j : ℕ} {old new : List Text} {ps : List Part} (removed added : List Text)
      (h : Compare (i + removed.length) (j + added.length) old new ps) :
      Compare i j (removed ++ old) (added ++ new) (.change i j removed added :: ps)

variable {i j : ℕ} {old new : List Text} {ps : List Part}

theorem Tile.compare (h : Tile i j old new ps) : Compare i j old new ps := by
  induction h with
  | done => exact .done
  | same lines _ ih => exact .same lines ih
  | change removed added _ ih => exact .change removed added ih

end Part

/-! ## The parts of a script -/

namespace Script

open Fabula.Part

variable {i j : ℕ} {old new : List Text} {ps : List Part}

/-- A change that is none is left out. -/
theorem tile_change (removed added : List Text)
    (h : Tile (i + removed.length) (j + added.length) old new ps) :
    Tile i j (removed ++ old) (added ++ new) (parts.change i j removed added ps) := by
  unfold parts.change
  split
  · rename_i hnone
    obtain ⟨rfl, rfl⟩ := hnone
    exact h
  · exact .change removed added h

/-- A stretch is joined with the one behind it. -/
theorem tile_keep (lines : List Text)
    (h : Tile (i + lines.length) (j + lines.length) old new ps) :
    Tile i j (lines ++ old) (lines ++ new) (parts.keep i j lines ps) := by
  unfold parts.keep
  split
  · cases h with
    | same more h =>
      rw [← List.append_assoc, ← List.append_assoc]
      refine .same _ ?_
      rwa [List.length_append, ← Nat.add_assoc, ← Nat.add_assoc]
  · exact .same lines h

/-- **The parts of a script lie side by side**, behind the change that is being collected. -/
theorem tile_parts (s : Script) (i j : ℕ) (removed added : List Text) :
    Tile i j (removed ++ s.old) (added ++ s.new) (parts i j removed added s) := by
  induction i, j, removed, added, s using parts.induct with
  | case1 i j removed added =>
    rw [parts]
    exact tile_change removed added .done
  | case2 i j removed added lines s ih =>
    rw [parts]
    exact tile_change removed added (tile_keep lines ih)
  | case3 i j removed added lines s ih =>
    rw [parts]
    rwa [List.append_assoc] at ih
  | case4 i j removed added lines s ih =>
    rw [parts]
    rwa [List.append_assoc] at ih

end Script

/-! ## Hunks -/

namespace Part.Compare

variable {i j a b : ℕ} {old new lines : List Text} {ps qs rest : List Part}

/-- A stretch without its first lines. -/
theorem drop (k : ℕ) (hk : k ≤ lines.length)
    (h : Compare (i + lines.length) (j + lines.length) old new ps) :
    Compare i j (lines ++ old) (lines ++ new) (.same (i + k) (j + k) (lines.drop k) :: ps) := by
  have hlast : ∀ m, m + k + (lines.drop k).length = m + lines.length := by
    intro m
    rw [List.length_drop]
    omega
  have hskip : Compare i j (lines.take k ++ (lines.drop k ++ old))
      (lines.take k ++ (lines.drop k ++ new)) (.same (i + k) (j + k) (lines.drop k) :: ps) := by
    refine .skip _ ?_
    rw [List.length_take_of_le hk]
    refine .same _ ?_
    rwa [hlast, hlast]
  rwa [← List.append_assoc, ← List.append_assoc, List.take_append_drop] at hskip

/-- A stretch of which the first lines are shown apart. -/
theorem take (k : ℕ) (hk : k ≤ lines.length)
    (h : Compare (i + k) (j + k) (lines.drop k ++ old) (lines.drop k ++ new) ps) :
    Compare i j (lines ++ old) (lines ++ new) (.same i j (lines.take k) :: ps) := by
  rw [← List.length_take_of_le hk] at h
  have hsame := Compare.same _ h
  rwa [List.length_take_of_le hk, ← List.append_assoc, ← List.append_assoc,
    List.take_append_drop] at hsame

/-- **A stretch is left out**, wherever it is. -/
theorem leaveOut (h : Compare i j old new qs) (hqs : qs = ps ++ .same a b lines :: rest) :
    Compare i j old new (ps ++ rest) := by
  induction h generalizing ps with
  | done => simp at hqs
  | skip more _ ih => exact .skip more (ih hqs)
  | same more h ih =>
    cases ps with
    | nil =>
      obtain ⟨_, rfl⟩ := List.cons.inj hqs
      exact .skip more h
    | cons p ps =>
      obtain ⟨rfl, hrest⟩ := List.cons.inj hqs
      exact .same more (ih hrest)
  | change removed added h ih =>
    cases ps with
    | nil => cases (List.cons.inj hqs).1
    | cons p ps =>
      obtain ⟨rfl, hrest⟩ := List.cons.inj hqs
      exact .change removed added (ih hrest)

end Part.Compare

namespace Hunk

open Fabula.Part

variable {i j : ℕ} {old new : List Text} {ps : List Part}

theorem compare_trimFirst (n : ℕ) (h : Compare i j old new ps) :
    Compare i j old new (trimFirst n ps) := by
  induction h with
  | done => exact .done
  | skip lines _ ih => exact .skip lines ih
  | same lines h _ => exact h.drop _ (Nat.sub_le _ _)
  | change removed added h _ => exact .change removed added h

theorem compare_trimLast (n : ℕ) (h : Compare i j old new ps) :
    Compare i j old new (trimLast n ps) := by
  induction h with
  | done => exact .done
  | skip lines _ ih => exact .skip lines ih
  | @same i j old new ps lines h ih =>
    cases ps with
    | nil =>
      rw [trimLast, List.take_eq_take_min]
      refine .take _ (Nat.min_le_right _ _) (.skip _ ?_)
      have hlast : ∀ m, m + min n lines.length + (lines.drop (min n lines.length)).length
          = m + lines.length := by
        intro m
        rw [List.length_drop]
        omega
      rwa [hlast, hlast]
    | cons p ps =>
      rw [trimLast]
      · exact .same lines ih
      · simp
  | change removed added h ih =>
    rw [trimLast]
    · exact .change removed added ih
    · simp

theorem flatten_extend (p : Part) (hunks : List Hunk) :
    (split.extend p hunks).flatten = p :: hunks.flatten := by
  cases hunks <;> rfl

/-- **Cutting into hunks leaves out only lines of both sides.** -/
theorem compare_split (n : ℕ) (h : Compare i j old new ps) :
    Compare i j old new (split n ps).flatten := by
  induction h with
  | done => exact .done
  | skip lines _ ih => exact .skip lines ih
  | @same i j old new ps lines h ih =>
    rw [split]
    split
    · rename_i hlong
      rw [List.flatten_cons, flatten_extend]
      refine .take n (by omega) ?_
      -- behind the first `n` lines those in the middle are left out
      have hlen : (lines.drop n).length = lines.length - n := List.length_drop
      have hend : ∀ m, m + n + (lines.drop n).length = m + lines.length := by
        intro m
        omega
      have hlast : ∀ m, m + n + (lines.length - 2 * n) = m + (lines.length - n) := by
        intro m
        omega
      rw [← hend, ← hend] at ih
      have hmiddle := ih.drop (lines.length - 2 * n) (by omega)
      rwa [List.drop_drop, hlast, hlast,
        show n + (lines.length - 2 * n) = lines.length - n by omega] at hmiddle
    · rw [flatten_extend]
      exact .same lines ih
  | change removed added h ih =>
    rw [split, flatten_extend]
    · exact .change removed added ih
    · simp

/-- The last hunk, where it shows no change, is a stretch. -/
theorem flatten_dropIdleEnd (hunks : List Hunk) : hunks.flatten = (dropIdleEnd hunks).flatten ∨
    ∃ a b lines, hunks.flatten = (dropIdleEnd hunks).flatten ++ [.same a b lines] := by
  induction hunks with
  | nil => exact .inl rfl
  | cons hunk hunks ih =>
    cases hunks with
    | nil =>
      rw [dropIdleEnd]
      split
      · rename_i hidle
        unfold isIdle at hidle
        split at hidle
        · exact .inl rfl
        · exact .inr ⟨_, _, _, rfl⟩
        · cases hidle
      · exact .inl rfl
    | cons second hunks =>
      rw [dropIdleEnd, List.flatten_cons (l := hunk), List.flatten_cons (l := hunk)]
      · rcases ih with ih | ⟨a, b, lines, ih⟩
        · exact .inl (by rw [← ih])
        · exact .inr ⟨a, b, lines, by rw [ih, List.append_assoc]⟩
      · simp

theorem compare_dropIdleEnd {hunks : List Hunk} (h : Compare i j old new hunks.flatten) :
    Compare i j old new (dropIdleEnd hunks).flatten := by
  rcases flatten_dropIdleEnd hunks with heq | ⟨a, b, lines, heq⟩
  · rwa [heq] at h
  · have hless := h.leaveOut heq
    rwa [List.append_nil] at hless

/-- **The hunks of two lists of lines compare them.** -/
theorem compare_of (n : ℕ) (old new : List Text) : Compare 0 0 old new (of n old new).flatten := by
  have htile := Script.tile_parts (Script.slide [] (align old new)) 0 0 [] []
  obtain ⟨hold, hnew⟩ := relates_slide_align old new
  rw [List.nil_append, List.nil_append, hold, hnew] at htile
  exact compare_dropIdleEnd (compare_split n (compare_trimLast n (compare_trimFirst n
    htile.compare)))

end Hunk

end Fabula
