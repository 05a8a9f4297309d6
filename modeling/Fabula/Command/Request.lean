import Fabula.Command.Level
import Fabula.Naming.Id
import Fabula.Scaffold.Generate

/-!
# Command lines

A command line says what is to be done, by a verb and mostly a noun, and how:
in which project, by which configuration, and whether it is only tried. The
latter may be said on any level; what is said on the deepest one counts.
-/

namespace Fabula

/-- **What is to be done.** -/
inductive Command where
  | createEntity (kind : EntityKind) (name : Text) (id? : Option Text)
  | createEvent (args : EventArgs)
  | createRace (name description : Text) (id? : Option Text)
  | createPassage (event character passage : Text) (kind : PassageKind) (title? link? : Option Text)
  | removeEntity (kind : EntityKind) (id : Text)
  | removeEvent (id : Text) (force : Bool)
  | removeRace (id : Text)
  | removePassage (id : Text)
  | generate (kind : GenerateKind) (count : Nat) (start : Text) (seed? : Option Nat)
deriving DecidableEq, Repr

namespace Command

/-- **A command, and what it is done with.** -/
structure Request where
  /-- What is to be done. -/
  command : Command
  /-- The folder of the project. -/
  project : Path
  /-- The configuration file, where one is named. -/
  config? : Option Path
  /-- Whether the command is only tried. -/
  dryRun : Bool
deriving DecidableEq, Repr

/-! ## The words of a command -/

/-- **A word that ends the words of a command**: what may be said after it,
and the command that is meant. -/
structure Leaf where
  options : List String
  flags : List String := []
  meaning : Said → Option Command

/-- A number of 64 bits, with an optional sign. -/
def number? (t : Text) : Option Nat :=
  let digits := (Text.after? ['+'] t).getD t
  let n := digits.foldl (fun n c => n * 10 + (c.toNat - '0'.toNat)) 0
  if digits ≠ [] ∧ digits.all Char.isDigit ∧ n < UInt64.size then some n else none

/-- The value of an option, read by `read`; a default when the option is not
said. -/
def optionOr? {α : Type} (said : Said) (name : String) (default : α) (read : Text → Option α) :
    Option α :=
  match said.option? name with
  | some value => read value
  | none => some default

/-- The kind of passage a word names. -/
def passageKind? (word : Text) : Option PassageKind :=
  [("screen".toList, PassageKind.screen), ("linear".toList, .linear),
    ("transition".toList, .transition), ("linear-describer".toList, .linearDescriber)].lookup word

/-- What a word names to be generated. -/
def generateKind? (word : Text) : Option GenerateKind :=
  [("characters".toList, GenerateKind.characters), ("side-characters".toList, .sideCharacters),
    ("locations".toList, .locations), ("events".toList, .events),
    ("passages".toList, .passages)].lookup word

/-- `create <kind> <name>`. -/
def createEntityLeaf (kind : EntityKind) : Leaf where
  options := ["id"]
  meaning said :=
    match said.places with
    | [name] => some (.createEntity kind name (said.option? "id"))
    | _ => none

/-- `create event <title>`. -/
def createEventLeaf : Leaf where
  options := ["id", "description", "start", "end", "location"]
  meaning said :=
    match said.places with
    | [title] =>
      let args : EventArgs :=
        { id := (said.option? "id").getD title.idOfName
          title := title.trim }
      some (.createEvent
        { args with
          description := (said.option? "description").getD args.description
          start := (said.option? "start").getD args.start
          stop := (said.option? "end").getD args.stop
          location := (said.option? "location").getD args.location })
    | _ => none

/-- `create race <name>`. -/
def createRaceLeaf : Leaf where
  options := ["description", "id"]
  meaning said :=
    match said.places with
    | [name] =>
      some (.createRace name ((said.option? "description").getD []) (said.option? "id"))
    | _ => none

/-- `create passage <event> <character> <passage>`. -/
def createPassageLeaf : Leaf where
  options := ["kind", "title", "link"]
  meaning said :=
    match said.places with
    | [event, character, passage] => do
      let kind ← optionOr? said "kind" .screen passageKind?
      pure (.createPassage event character passage kind (said.option? "title")
        (said.option? "link"))
    | _ => none

/-- `remove <kind> <id>`, where nothing else is said. -/
def removeLeaf (meaning : Text → Command) : Leaf where
  options := []
  meaning said :=
    match said.places with
    | [id] => some (meaning id)
    | _ => none

/-- `remove event <id>`. -/
def removeEventLeaf : Leaf where
  options := []
  flags := ["force"]
  meaning said :=
    match said.places with
    | [id] => some (.removeEvent id (said.flag "force"))
    | _ => none

/-- `generate <kind>`. -/
def generateLeaf : Leaf where
  options := ["count", "prefix", "seed"]
  meaning said :=
    match said.places with
    | [kind] => do
      let kind ← generateKind? kind
      let count ← optionOr? said "count" 1 number?
      let seed? ← optionOr? said "seed" none fun t => (number? t).map some
      pure (.generate kind count ((said.option? "prefix").getD "generated".toList) seed?)
    | _ => none

/-- The nouns that follow `create`. -/
def createLeaves : List (Text × Leaf) :=
  [("character".toList, createEntityLeaf .character),
    ("side-character".toList, createEntityLeaf .sideCharacter),
    ("location".toList, createEntityLeaf .location),
    ("event".toList, createEventLeaf),
    ("race".toList, createRaceLeaf),
    ("passage".toList, createPassageLeaf)]

/-- The nouns that follow `remove`. -/
def removeLeaves : List (Text × Leaf) :=
  [("character".toList, removeLeaf (.removeEntity .character)),
    ("side-character".toList, removeLeaf (.removeEntity .sideCharacter)),
    ("location".toList, removeLeaf (.removeEntity .location)),
    ("race".toList, removeLeaf .removeRace),
    ("event".toList, removeEventLeaf),
    ("passage".toList, removeLeaf .removePassage)]

/-! ## The levels -/

/-- A level, with what may be said on every one. -/
def levelWith (options flags : List String) (words : List Text) : Level where
  options := ["project".toList, "config".toList] ++ options.map String.toList
  flags := ["dry-run".toList, "verbose".toList] ++ flags.map String.toList
  words

/-- **Reads a level on which a word is wanted**, and nothing plain: what was
said, the word and what follows it. -/
def readWord? (words : List Text) (arguments : List Text) : Option (Said × Text × List Text) :=
  match (levelWith [] [] words).read? {} arguments with
  | some (said, word :: rest) => if said.places = [] then some (said, word, rest) else none
  | _ => none

/-- Reads the last level: what was said, and the command. -/
def Leaf.read? (leaf : Leaf) (arguments : List Text) : Option (Said × Command) := do
  let (said, _) ← (levelWith leaf.options leaf.flags []).read? {} arguments
  let command ← leaf.meaning said
  pure (said, command)

/-- Reads the noun and what follows it. -/
def readNoun? (leaves : List (Text × Leaf)) (arguments : List Text) :
    Option (List Said × Command) := do
  let (said, noun, rest) ← readWord? (leaves.map (·.1)) arguments
  let leaf ← leaves.lookup noun
  let (last, command) ← leaf.read? rest
  pure ([said, last], command)

/-- **Reads the words of a command**: what was said on each level, and the
command. -/
def readLevels? (arguments : List Text) : Option (List Said × Command) := do
  let (said, verb, rest) ←
    readWord? ["create".toList, "remove".toList, "generate".toList] arguments
  if verb = "create".toList then
    let (below, command) ← readNoun? createLeaves rest
    pure (said :: below, command)
  else if verb = "remove".toList then
    let (below, command) ← readNoun? removeLeaves rest
    pure (said :: below, command)
  else
    let (last, command) ← generateLeaf.read? rest
    pure ([said, last], command)

/-- **What an option names on the deepest level that says it.** No level may
name the empty path. -/
def pathOption? (levels : List Said) (name : String) : Option (Option Path) :=
  let values := levels.filterMap (·.option? name)
  if values.contains [] then none else some (values.getLast?.map Path.mk)

/-- **Reads a command line.** -/
def Request.read? (arguments : List Text) : Option Request := do
  let (levels, command) ← readLevels? arguments
  let project ← pathOption? levels "project"
  let config? ← pathOption? levels "config"
  pure
    { command, config?
      project := project.getD ⟨['.']⟩
      dryRun := levels.any (·.flag "dry-run") }

end Command

end Fabula
