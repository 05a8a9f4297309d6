import Fabula.Command.Request
import Fabula.Project.Settings
import Fabula.Scaffold.Race

/-!
# Running a command

A command is run on a disk. The configuration comes first, since it says where
everything is; then the scaffold of the command is applied, or tried, and its
report is shown. What fails is shown as an error.
-/

namespace Fabula

namespace Command

/-- **What a command depends on beside the disk and its arguments.** -/
structure Surroundings where
  /-- Where the user keeps configurations. -/
  configHome : Path
  /-- Whether a terminal gets colors. -/
  palette : Palette
  /-- The random throws that a seed stands for, or those of this run. -/
  throws : Option Nat → Dice

/-- **What a command leaves behind beside the disk.** -/
structure Printed where
  /-- Zero for success, one for a failure, two when no command was meant. -/
  status : Nat
  /-- The report. -/
  out : Text := []
  /-- The error. -/
  err : Text := []
deriving DecidableEq, Repr

/-- **The scaffold of a command.** -/
def scaffold [Engine] (command : Command) (throws : Option Nat → Dice) (d : Disk) (l : Layout) :
    Outcome Scaffold :=
  match command with
  | .createEntity kind name id? => Scaffold.createEntity kind name id?
  | .createEvent args => Scaffold.createEvent args
  | .createRace name description id? => Scaffold.createRace name description id?
  | .createPassage event character passage kind title? link? => do
    let p ← PassageRef.make event character passage
    pure (Scaffold.createPassage p kind title? link?)
  | .removeEntity kind id => Scaffold.removeEntity kind id
  | .removeEvent id force => Scaffold.removeEvent id force
  | .removeRace id => Scaffold.removeRace id
  | .removePassage id => do
    let p ← PassageRef.parse id
    pure (Scaffold.removePassage p)
  | .generate kind count start seed? => Scaffold.generate d l kind count start (throws seed?)

namespace Request

/-- Whether the changes of a request are written. -/
def mode (r : Request) : Mode :=
  if r.dryRun then .preview else .apply

/-- **Runs a request**: the configuration it was run with, and the report. -/
def run [Engine] (r : Request) (s : Surroundings) (d : Disk) : Outcome (Config × Report) × Disk :=
  match Config.load d s.configHome r.config? r.project with
  | (.error f, d) => (.error f, d)
  | (.ok config, d) =>
    let l : Layout := ⟨r.project, config⟩
    match r.command.scaffold s.throws d l with
    | .error f => (.error f, d)
    | .ok scaffold =>
      let (result, d) := l.run r.mode scaffold d
      (result.map fun report => (config, report), d)

/-- What a request prints. -/
def printed (r : Request) (palette : Palette) : Outcome (Config × Report) → Printed
  | .ok (config, report) =>
    let rendered := report.render palette r.project config.showDiff
    let shown := if r.dryRun then palette.paint [.faint] rendered else rendered
    { status := 0, out := shown ++ ['\n'] }
  | .error f =>
    { status := 1
      err := palette.paint [.red, .bold] "error:".toList ++ ' ' :: f.message ++ ['\n'] }

end Request

/-- **Runs a command line.** -/
def execute [Engine] (s : Surroundings) (arguments : List Text) (d : Disk) : Printed × Disk :=
  match Request.read? arguments with
  | none => ({ status := 2, err := "error: these arguments are no command\n".toList }, d)
  | some r =>
    let (result, d) := r.run s d
    (r.printed s.palette result, d)

end Command

end Fabula
