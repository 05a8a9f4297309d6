import Fabula.Staging.Workspace

/-!
# Plans given as data

A plan can be given as a list of calls of the transaction, between which the
disk may be changed from outside. This is the general form of a plan: the
scaffolds of this library are particular ones, whose calls depend on what they
find.

A list of calls says what is called and not why. That is enough to tell what a
plan leaves behind, and it can be followed by induction, which a plan that is a
function cannot. With the changes in between it says of each call on which disk
it was made.
-/

namespace Fabula

/-- **A call of a transaction.** -/
inductive Call where
  | read (path : Path)
  | exists (path : Path)
  | update (path : Path) (patch : Text → Outcome Text)
  | create (path : Path) (text : Text)
  | deleteFile (path : Path)
  | deleteFolder (path : Path)

/-- What a call answers. -/
inductive Answer where
  | text (t : Text)
  | flag (b : Bool)
  | done
deriving DecidableEq, Repr

namespace Call

/-- **Makes a call.** -/
def run (c : Call) (d : Disk) (tx : Transaction) : Outcome (Answer × Transaction) :=
  match c with
  | .read p => do
    let (t, tx) ← tx.read d p
    pure (.text t, tx)
  | .exists p => pure (.flag (tx.pathExists d p), tx)
  | .update p patch => return (.done, ← tx.update d p patch)
  | .create p t => return (.done, ← tx.create d p t)
  | .deleteFile p => return (.done, ← tx.deleteFile d p)
  | .deleteFolder p => return (.done, ← tx.deleteFolder d p)

end Call

/-- **A step of a plan given as data.** -/
inductive Move where
  /-- A call of the transaction. -/
  | call (c : Call)
  /-- A change of the disk behind the transaction's back. -/
  | outside (change : Disk → Except DiskError Disk)

namespace Move

/-- Makes one step. -/
def run (m : Move) (d : Disk) (tx : Transaction) : Outcome (Answer × Transaction × Disk) :=
  match m with
  | .call c => do
    let (answer, tx) ← c.run d tx
    pure (answer, tx, d)
  | .outside change => do
    let d ← .ofDisk (change d)
    pure (.done, tx, d)

/-- **Makes steps in order**, up to the first that fails: the answers of those
that did not, and how the plan ended. -/
def runAll (d : Disk) (tx : Transaction) : List Move → List Answer × Outcome Transaction × Disk
  | [] => ([], .ok tx, d)
  | m :: ms =>
    match m.run d tx with
    | .error f => ([], .error f, d)
    | .ok (answer, tx, d) =>
      let (answers, ended) := runAll d tx ms
      (answer :: answers, ended)

/-- A list of steps as a plan. -/
def plan (ms : List Move) : LivePlan :=
  fun d tx => (runAll d tx ms).2

end Move

end Fabula
