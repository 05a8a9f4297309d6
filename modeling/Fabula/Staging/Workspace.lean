import Fabula.Staging.Commit

/-!
# Running a scaffold

A scaffold is one operation on a project. It has a name, declares the files
and folders it may touch, and plans its changes as a transaction. Applying it
commits the transaction; previewing it stops at the report. The declared paths
and the data folder have to be resolvable before anything is planned.

The plan is a function of the disk and of the transaction so far. It may read
and ask as often as it wants to, and stage its changes in any order, but it has
no way to write. So what a scaffold leaves behind is what its transaction is
committed to, or nothing.
-/

namespace Fabula

/-- **One operation on a project.** -/
structure Scaffold where
  /-- Its name, as reports and messages show it. -/
  name : Text
  /-- What it may touch; a folder stands for all that is in it. -/
  targets : Layout → List Path
  /-- Stages its changes, seeing the disk as it is. -/
  plan : Disk → Transaction → Outcome Transaction

/-- A plan that may see the disk change under it: it answers the disk it left
together with the transaction, or with the failure. -/
abbrev LivePlan := Disk → Transaction → Outcome Transaction × Disk

/-- **Whether what is planned is written.** -/
inductive Mode where
  | apply
  | preview
deriving DecidableEq, Repr

namespace Layout

/-- Passes targets that can be resolved. -/
def checkTargets (l : Layout) (d : Disk) (targets : List Path) : Outcome Unit := do
  let _ ← d.resolve l.dataDir
  targets.forM fun p => do
    let _ ← d.resolve p
    pure ()

/-- **Runs a plan**: stages it, and commits it or only reports it. -/
def runPlan (l : Layout) (mode : Mode) (name : Text) (targets : List Path) (plan : LivePlan)
    (d : Disk) : Outcome Report × Disk :=
  match l.checkTargets d targets with
  | .error f => (.error f, d)
  | .ok () =>
    match plan d { layout := l, targets } with
    | (.error f, d) => (.within (.planning name) (.error f), d)
    | (.ok tx, d) =>
      match mode with
      | .preview => (.ok (tx.report name true), d)
      | .apply => tx.commit name d

/-- **Runs a scaffold.** -/
def run (l : Layout) (mode : Mode) (s : Scaffold) (d : Disk) : Outcome Report × Disk :=
  l.runPlan mode s.name (s.targets l) (fun d tx => (s.plan d tx, d)) d

end Layout

end Fabula
