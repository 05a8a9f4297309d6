import Fabula.Scaffold.Dice
import Fabula.Scaffold.Event
import Fabula.Scaffold.Passage

/-!
# Placeholders in bulk

A batch of new entities, for trying a project out: each gets an id made of a
common beginning, its number and its kind. Events take place at a random
existing location; passages belong to a random existing event and character,
and link to a random passage they already have. The batch is one scaffold, so
all of it is written or nothing. What there is to pick from is what is on disk
before the batch.

Since the steps of the batch are scaffolds of their own, planned one after the
other on one transaction, a step sees the edits of the steps before it. The
numbers keep their ids apart. What a step picks is decided before any step is
planned, by dice that are part of the input, so a batch is a function of the
disk and the dice.
-/

namespace Fabula

/-- **What is generated.** -/
inductive GenerateKind where
  | characters
  | sideCharacters
  | locations
  | events
  | passages
deriving DecidableEq, Repr

namespace GenerateKind

/-- The kind in words. -/
def label : GenerateKind → Text
  | characters => "characters".toList
  | sideCharacters => "side characters".toList
  | locations => "locations".toList
  | events => "events".toList
  | passages => "passages".toList

end GenerateKind

namespace Scaffold

/-- The ids of the files of a folder whose names end in this way. -/
def listFileIds (d : Disk) (folder : Path) (ending : Text) : Outcome (List Text) := do
  let entries ← entriesOf d folder
  let ids := entries.filterMap fun (name, e) =>
    if e = .folder then none else Text.before? ending name
  pure (ids.mergeSort fun x y => !decide (y < x))

/-- The names of the folders of a folder. -/
def listFolderIds (d : Disk) (folder : Path) : Outcome (List Text) := do
  let entries ← entriesOf d folder
  pure ((entries.filter fun x => x.2 == .folder).map (·.1))

/-- **What there is to pick from.** -/
structure Candidates where
  locations : List Text
  events : List Text
  characters : List Text

/-- What there is on disk to pick from. -/
def candidates (d : Disk) (l : Layout) : Outcome Candidates := do
  let locations ← listFileIds d l.locationsDir ".location.ts".toList
  let events ← listFolderIds d l.eventsDir
  let characters ← listFileIds d l.charactersDir ".ts".toList
  pure { locations, events, characters }

/-- One of the candidates, which there have to be. -/
def pickOne (what : Text) (from' : List Text) (dice : Dice) : Outcome (Text × Dice) :=
  match dice.pick from' with
  | (some id, dice) => .ok (id, dice)
  | (none, _) => .fail (.nothingToPick what)

/-- The id of a generated entity. -/
def generatedId (start : Text) (i : Nat) (kind : String) : Text :=
  start ++ '_' :: Text.ofNat i ++ '_' :: kind.toList

/-- **The `i`th scaffold of a batch**, and the throws that are left. -/
def generateStep [Engine] (d : Disk) (l : Layout) (kind : GenerateKind) (start : Text)
    (c : Candidates) (i : Nat) (dice : Dice) : Outcome (Scaffold × Dice) := do
  let entity (kind : EntityKind) (name idKind : String) : Outcome (Scaffold × Dice) := do
    let s ← createEntity kind (name.toList ++ ' ' :: Text.ofNat i)
      (some (generatedId start i idKind))
    pure (s, dice)
  match kind with
  | .characters => entity .character "Character" "character"
  | .sideCharacters => entity .sideCharacter "Side Character" "sideCharacter"
  | .locations => entity .location "Location" "location"
  | .events =>
    let (location, dice) := dice.pick c.locations
    let args : EventArgs :=
      { id := generatedId start i "event"
        title := "Event ".toList ++ Text.ofNat i }
    let s ← createEvent
      { args with
        description := "Description of event ".toList ++ Text.ofNat i
        start := "2.1. 8:00".toList
        stop := "2.1. 20:00".toList
        location := location.getD args.location }
    pure (s, dice)
  | .passages =>
    let (event, dice) ← pickOne "events".toList c.events dice
    let (character, dice) ← pickOne "characters".toList c.characters dice
    let p ← PassageRef.make event character (generatedId start i "passage")
    let existing ← existingPassages d (l.passageFolder event character)
    let (link, dice) := dice.pick existing
    pure (createPassage p .screen (some ("Title of ScreenPassage ".toList ++ Text.ofNat i)) link,
      dice)

/-- The scaffolds of a batch from the `i`th on, `n` of them. -/
def generateSteps [Engine] (d : Disk) (l : Layout) (kind : GenerateKind) (start : Text)
    (c : Candidates) :
    Nat → Nat → Dice → Outcome (List Scaffold)
  | 0, _, _ => .ok []
  | n + 1, i, dice => do
    let (s, dice) ← generateStep d l kind start c i dice
    let rest ← generateSteps d l kind start c n (i + 1) dice
    pure (s :: rest)

/-- **Several scaffolds as one**, planned in order on one transaction. -/
def batch (name : Text) (steps : List Scaffold) : Scaffold where
  name
  targets l := steps.flatMap fun s => s.targets l
  plan d tx := steps.foldlM (fun tx s => .within (.step s.name) (s.plan d tx)) tx

/-- **Generates a batch of placeholders.** -/
def generate [Engine] (d : Disk) (l : Layout) (kind : GenerateKind) (count : Nat) (start : Text)
    (dice : Dice) : Outcome Scaffold := do
  checkId "prefix".toList start
  let c ← candidates d l
  let steps ← generateSteps d l kind start c count 0 dice
  pure (batch ("generate ".toList ++ Text.ofNat steps.length ++ ' ' :: kind.label) steps)

end Scaffold

end Fabula
