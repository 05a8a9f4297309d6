import Fabula.Diff.Script

/-!
# Sliding added lines

The same change can often be described in several places: where `}` was added
behind a `}`, either may be the new one. Each run of added lines is therefore
slid as far up as it goes and then as far down as it goes, and runs that meet
on the way become one. Sliding a run past lines it agrees with changes
neither side of the script; dropped lines are passed freely.
-/

namespace Fabula

namespace Script

/-- Puts kept lines in front of a script, joining them with kept lines there. -/
def keepFront (lines : List Text) : Script → Script
  | .keep more :: s => .keep (lines ++ more) :: s
  | s => .keep lines :: s

/-- What bounds the slide of a run: the runs ahead of it and the lines in
them. -/
def weight (s : Script) : Nat :=
  s.foldr (fun run weight => run.size + 1 + weight) 0

/-- **Slides added lines up.** `above` are the runs above, nearest first;
`below` the runs below. The answer is the same three parts. -/
def slideUp (above : Script) (lines : List Text) (below : Script) :
    Script × List Text × Script :=
  match above with
  | [] => ([], lines, below)
  | .drop dropped :: above => slideUp above lines (.drop dropped :: below)
  | .add more :: above => slideUp above (more ++ lines) below
  | .keep kept :: above =>
    let (common, kept', lines') := commonEnd kept lines
    if common = [] then (.keep kept :: above, lines, below)
    else
      let below := keepFront common below
      if kept'.length < kept.length then
        if kept' = [] then slideUp above (common ++ lines') below
        else slideUp (.keep kept' :: above) (common ++ lines') below
      else (.keep kept :: above, lines, below)
termination_by weight above
decreasing_by all_goals simp_all [weight, Run.size]; try omega

/-- **Slides added lines down**, likewise. -/
def slideDown (above : Script) (lines : List Text) (below : Script) :
    Script × List Text × Script :=
  match below with
  | [] => (above, lines, [])
  | .drop dropped :: below => slideDown (.drop dropped :: above) lines below
  | .add more :: below => slideDown above (lines ++ more) below
  | .keep kept :: below =>
    let (common, kept', lines') := commonStart kept lines
    if common = [] then (above, lines, .keep kept :: below)
    else
      let above :=
        match above with
        | .keep more :: above => Run.keep (more ++ common) :: above
        | above => .keep common :: above
      if kept'.length < kept.length then
        if kept' = [] then slideDown above (lines' ++ common) below
        else slideDown above (lines' ++ common) (.keep kept' :: below)
      else (above, lines, .keep kept :: below)
termination_by weight below
decreasing_by all_goals simp_all [weight, Run.size]; try omega

/-- **The script with every run of added lines slid.** `above` holds the runs
that were passed, nearest first. -/
def slide (above : Script) (s : Script) : Script :=
  go (weight s) above s
where
  /-- A slide may make runs, but no lines, and every run has a line: so the
  lines bound the runs that are left to visit. -/
  go : Nat → Script → Script → Script
    | _, above, [] => above.reverse
    | 0, above, s => above.reverse ++ s
    | n + 1, above, .add lines :: s =>
      let (above, lines, below) := slideUp above lines s
      let (above, lines, below) := slideDown above lines below
      go n (.add lines :: above) below
    | n + 1, above, run :: s => go n (run :: above) s

end Script

end Fabula
