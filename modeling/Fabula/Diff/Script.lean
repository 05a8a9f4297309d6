import Fabula.Text.Basic

/-!
# Edit scripts

A script tells how one list of lines becomes another: runs of lines that are
kept, dropped or added, in order. The lines stand in the runs themselves, so
the two lists a script relates are read off it (`Script.old`, `Script.new`),
and a step that rearranges runs is right when both readings stay the same. No
index is stored, and none can be wrong.
-/

namespace Fabula

/-- **A run of a script.** -/
inductive Run where
  /-- Lines of both sides. -/
  | keep (lines : List Text)
  /-- Lines of the old side alone. -/
  | drop (lines : List Text)
  /-- Lines of the new side alone. -/
  | add (lines : List Text)
deriving DecidableEq, Repr

/-- **An edit script.** -/
abbrev Script := List Run

namespace Run

/-- The old lines of a run. -/
def old : Run → List Text
  | keep lines => lines
  | drop lines => lines
  | add _ => []

/-- The new lines of a run. -/
def new : Run → List Text
  | keep lines => lines
  | drop _ => []
  | add lines => lines

/-- How many lines a run has. -/
def size : Run → Nat
  | keep lines => lines.length
  | drop lines => lines.length
  | add lines => lines.length

end Run

namespace Script

/-- The old side of a script. -/
def old (s : Script) : List Text :=
  s.flatMap Run.old

/-- The new side of a script. -/
def new (s : Script) : List Text :=
  s.flatMap Run.new

@[simp] theorem old_nil : old [] = [] := rfl

@[simp] theorem new_nil : new [] = [] := rfl

@[simp] theorem old_append (s t : Script) : old (s ++ t) = old s ++ old t := by
  simp [old]

@[simp] theorem new_append (s t : Script) : new (s ++ t) = new s ++ new t := by
  simp [new]

/-- A run in front of a script; an empty one is left out. -/
def push (run : Run) (s : Script) : Script :=
  if run.size = 0 then s else run :: s

@[simp] theorem old_push (run : Run) (s : Script) : old (push run s) = run.old ++ old s := by
  unfold push
  split
  · rename_i h
    cases run <;> simp_all [Run.size, Run.old]
  · simp [old]

@[simp] theorem new_push (run : Run) (s : Script) : new (push run s) = run.new ++ new s := by
  unfold push
  split
  · rename_i h
    cases run <;> simp_all [Run.size, Run.new]
  · simp [new]

end Script

/-! ## What two lists have in common at their ends -/

/-- The lines both lists begin with, and what follows them in each. -/
def commonStart : List Text → List Text → List Text × List Text × List Text
  | a :: as, b :: bs =>
    if a = b then
      let (common, restA, restB) := commonStart as bs
      (a :: common, restA, restB)
    else ([], a :: as, b :: bs)
  | as, bs => ([], as, bs)

/-- The lines both lists end with, and what precedes them in each. -/
def commonEnd (as bs : List Text) : List Text × List Text × List Text :=
  let (common, restA, restB) := commonStart as.reverse bs.reverse
  (common.reverse, restA.reverse, restB.reverse)

theorem commonStart_eq (as bs : List Text) :
    as = (commonStart as bs).1 ++ (commonStart as bs).2.1 ∧
      bs = (commonStart as bs).1 ++ (commonStart as bs).2.2 := by
  induction as generalizing bs with
  | nil => cases bs <;> simp [commonStart]
  | cons a as ih =>
    cases bs with
    | nil => simp [commonStart]
    | cons b bs =>
      rw [commonStart]
      split
      · rename_i h
        exact ⟨congrArg (a :: ·) (ih bs).1, by rw [h]; exact congrArg (b :: ·) (ih bs).2⟩
      · simp

theorem commonEnd_eq (as bs : List Text) :
    as = (commonEnd as bs).2.1 ++ (commonEnd as bs).1 ∧
      bs = (commonEnd as bs).2.2 ++ (commonEnd as bs).1 := by
  have h := commonStart_eq as.reverse bs.reverse
  constructor
  · have := congrArg List.reverse h.1
    simpa [commonEnd] using this
  · have := congrArg List.reverse h.2
    simpa [commonEnd] using this

end Fabula
