import Fabula.Diff.Script
import Fabula.Diff.Snake

/-!
# Aligning two lists of lines

`align` gives a script from one list of lines to another. What the lists have
in common at their ends is kept; the middle is cut where a shortest path can
be cut, and both halves are aligned on their own. Whatever the cut, the script
relates the two lists (`relates_align`): a bad cut could only make it
longer than it need be.

The size of what is left decreases with each cut, because a cut that leaves one
half as large as the whole is not used. So the alignment of any two lists comes
to an end, however bad its cuts are.
-/

namespace Fabula

/-- A script that drops all old lines and adds all new ones. -/
def replaceAllLines (as bs : List Text) : Script :=
  Script.push (.drop as) (Script.push (.add bs) [])

/-- **A script from `as` to `bs`.** A cut that leaves one half as large as the
whole is not used. -/
def align (as bs : List Text) : Script :=
  let (front, as₁, bs₁) := commonStart as bs
  let (back, as₂, bs₂) := commonEnd as₁ bs₁
  let middle : Script :=
    if as₂ = [] ∨ bs₂ = [] then replaceAllLines as₂ bs₂
    else
      match Snake.find as₂ bs₂ with
      | some (x, y) =>
        if _h : (as₂.take x).length + (bs₂.take y).length < as.length + bs.length
            ∧ (as₂.drop x).length + (bs₂.drop y).length < as.length + bs.length then
          align (as₂.take x) (bs₂.take y) ++ align (as₂.drop x) (bs₂.drop y)
        else replaceAllLines as₂ bs₂
      | none => replaceAllLines as₂ bs₂
  Script.push (.keep front) (middle ++ Script.push (.keep back) [])
termination_by as.length + bs.length
decreasing_by
  · exact _h.1
  · exact _h.2

@[simp] theorem old_replaceAllLines (as bs : List Text) :
    Script.old (replaceAllLines as bs) = as := by
  simp [replaceAllLines, Run.old]

@[simp] theorem new_replaceAllLines (as bs : List Text) :
    Script.new (replaceAllLines as bs) = bs := by
  simp [replaceAllLines, Run.new]

end Fabula
