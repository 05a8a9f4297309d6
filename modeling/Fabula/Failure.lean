import Fabula.Disk.Error
import Fabula.Naming.Entity
import Fabula.Naming.PassageRef
import Fabula.Patch.Error
import Fabula.Path
import Fabula.Text.Quoted

/-!
# Failures

Whatever goes wrong is one *problem*, seen through the *contexts* it passed on
its way out: which file was being updated, which step of a batch it was, which
scaffold. Both are data. The words, here and nowhere else, are functions of
them: a failure reads as its contexts, outermost first, and its problem, with
a colon between any two.
-/

namespace Fabula

/-- **What went wrong.** -/
inductive Problem where
  /-- An edit of a text was refused. -/
  | edit (e : PatchError)
  /-- An id is not made of letters, digits and `_`, beginning with a letter. -/
  | invalidId (what id : Text)
  /-- A text to be shown contains a character it may not. -/
  | invalidText (what text : Text) (c : Char)
  /-- A passage id does not have three parts. -/
  | invalidPassageId (id : Text)
  /-- A path lies at none of the declared targets, nor below one. -/
  | undeclared (path : Path)
  /-- Something exists where something is to be created. -/
  | alreadyExists (path : Path)
  /-- No file is where one is to be removed. -/
  | notAFile (path : Path)
  /-- No folder is where one is to be removed. -/
  | notAFolder (path : Path)
  /-- A path contains `..`. -/
  | goesUp (path : Path)
  /-- A path leads out of the data folder. -/
  | outside (path root : Path)
  /-- The data folder cannot be resolved. -/
  | noDataFolder (root : Path) (e : DiskError)
  /-- No folder above a path exists. -/
  | unresolvable (path : Path)
  /-- A file changed between its reading and the commit. -/
  | changedOnDisk (path : Path) (scaffold : Text)
  /-- A path has no name by which it could be moved aside. -/
  | unmovable (path : Path)
  /-- A path has no folder in which it could be written. -/
  | noFolder (path : Path)
  /-- The file system refused. -/
  | disk (e : DiskError)
  /-- The file system refused to make a temporary file at a path. -/
  | diskAt (e : DiskError) (path : Path)
  /-- The file system refused to move a temporary file into place. -/
  | persist (e : DiskError)
  /-- Events are not created like other entities. -/
  | eventsCreatedElsewhere
  /-- Events are not removed like other entities. -/
  | eventsRemovedElsewhere
  /-- The id of a new entity is taken. -/
  | entityExists (kind : EntityKind) (id : Text)
  /-- The id of a new event is taken. -/
  | eventExists (id : Text)
  /-- There is no entity of this id. -/
  | noEntity (kind : EntityKind) (id : Text)
  /-- There is no event of this id. -/
  | noEvent (id : Text)
  /-- An event that is to be removed has passages. -/
  | eventHasPassages (id : Text) (folders : List Text)
  /-- The address of a new passage is taken. -/
  | passageExists (passage : PassageRef) (path : Path)
  /-- There is no passage of this address. -/
  | noPassage (passage : PassageRef)
  /-- There is nothing that a generated passage could belong to. -/
  | nothingToPick (what : Text)
  /-- A configuration file is not TOML, or not a configuration. -/
  | notAConfiguration
  /-- A caller's own edit failed with this message. -/
  | refused (message : Text)
deriving DecidableEq, Repr

namespace Problem

/-- The indefinite article and the kind, as the messages have it. -/
def aKind (kind : EntityKind) : Text :=
  "A ".toList ++ kind.label

/-- The message a user reads. -/
def message : Problem → Text
  | edit e => e.message
  | invalidId what id =>
    "Invalid ".toList ++ what ++ " id '".toList ++ id ++
      "'. An id must start with a letter and may only contain letters, digits and '_'.".toList
  | invalidText what text c =>
    "Invalid ".toList ++ what ++ ' ' :: Quoted.text text ++ ": it may not contain ".toList ++
      Quoted.char c ++
      ". Braces, quotes, backticks, backslashes and line breaks are not allowed.".toList
  | invalidPassageId id =>
    "Invalid passage id '".toList ++ id ++
      "'. Expected format: eventId-characterId-passageId".toList
  | undeclared path =>
    '\'' :: path.text ++ "' is not one of the files this scaffold declared".toList
  | alreadyExists path => '\'' :: path.text ++ "' already exists".toList
  | notAFile path => '\'' :: path.text ++ "' is not a file".toList
  | notAFolder path => '\'' :: path.text ++ "' is not a directory".toList
  | goesUp path =>
    "Operation on path '".toList ++ path.text ++
      "' is not allowed. Paths may not contain '..'.".toList
  | outside path root =>
    "Operation on path '".toList ++ path.text ++
      "' is not allowed. It's not within the data directory '".toList ++ root.text ++ "'.".toList
  | noDataFolder root e =>
    "Failed to resolve data directory '".toList ++ root.text ++ "': ".toList ++ e.message ++
      ". Is the project root correct?".toList
  | unresolvable path =>
    "Cannot resolve '".toList ++ path.text ++
      "' because none of its parent directories exist.".toList
  | changedOnDisk path scaffold =>
    '\'' :: path.text ++ "' was changed on disk while '".toList ++ scaffold ++
      "' was planned. Nothing was written.".toList
  | unmovable path => "Cannot delete '".toList ++ path.text ++ ['\'']
  | noFolder path => '\'' :: path.text ++ "' has no parent directory".toList
  | disk e => e.message
  | diskAt e path => e.message ++ " at path ".toList ++ Quoted.text path.text
  | persist e =>
    "failed to persist temporary file: ".toList ++ e.message ++ ": ".toList ++ e.message
  | eventsCreatedElsewhere => "Events are created with their own scaffold".toList
  | eventsRemovedElsewhere => "Events are removed with their own scaffold".toList
  | entityExists kind id =>
    aKind kind ++ " with the id '".toList ++ id ++ "' already exists".toList
  | eventExists id => "An event with the id '".toList ++ id ++ "' already exists".toList
  | noEntity kind id =>
    "There is no ".toList ++ kind.label ++ " with the id '".toList ++ id ++ ['\'']
  | noEvent id => "There is no event with the id '".toList ++ id ++ ['\'']
  | eventHasPassages id folders =>
    "The event '".toList ++ id ++ "' still has passages (".toList ++
      Text.join ", ".toList folders ++ "). Use --force to remove it anyway.".toList
  | passageExists passage path =>
    "The passage '".toList ++ passage.display ++ "' already exists at '".toList ++ path.text ++
      ['\'']
  | noPassage passage => "There is no passage '".toList ++ passage.display ++ ['\'']
  | nothingToPick what =>
    "No ".toList ++ what ++ " found to generate passages for".toList
  | notAConfiguration => "not a configuration".toList
  | refused message => message

end Problem

/-- **What was being done when it went wrong.** -/
inductive Context where
  /-- An entity was being added to the register. -/
  | addingToRegister (kind : EntityKind) (id : Text)
  /-- An entity was being added to the world state. -/
  | addingToWorldState (kind : EntityKind) (id : Text)
  /-- An entity was being removed from the register. -/
  | removingFromRegister (kind : EntityKind) (id : Text)
  /-- An entity was being removed from the world state. -/
  | removingFromWorldState (kind : EntityKind) (id : Text)
  /-- The loader of an event's passages was being added to the register. -/
  | addingPassages (event : Text)
  /-- The loader of an event's passages was being removed from the register. -/
  | removingPassages (event : Text)
  /-- A passage id was being added to its event's union of ids. -/
  | addingPassageId (passage : PassageRef)
  /-- A passage was being added to its event's passage map. -/
  | addingPassage (passage : PassageRef)
  /-- A passage id was being removed from its event's union of ids. -/
  | removingPassageId (passage : PassageRef)
  /-- A passage was being removed from its event's passage map. -/
  | removingPassage (passage : PassageRef)
  /-- A race was being added. -/
  | addingRace (id : Text)
  /-- A race was being removed. -/
  | removingRace (id : Text)
  /-- A file was being read. -/
  | reading (path : Path)
  /-- A file was being read again before the commit. -/
  | rereading (path : Path)
  /-- The text of a file was being edited. -/
  | updating (path : Path)
  /-- A folder was being listed. -/
  | listing (path : Path)
  /-- Something was being moved aside. -/
  | deleting (path : Path)
  /-- A temporary file was being made in a folder. -/
  | makingTemporary (folder : Path)
  /-- A temporary file was being moved into place. -/
  | writing (path : Path)
  /-- A folder was being made. -/
  | creating (path : Path)
  /-- A configuration file was being read. -/
  | readingConfig (path : Path)
  /-- A configuration file was being parsed. -/
  | parsingConfig (path : Path)
  /-- A step of a batch was being planned. -/
  | step (name : Text)
  /-- A scaffold was being planned. -/
  | planning (name : Text)
  /-- A scaffold's deletions were being moved aside. -/
  | movingAside (name : Text)
  /-- A scaffold's files were being written. -/
  | applying (name : Text)
deriving DecidableEq, Repr

namespace Context

/-- `words 'subject'`, the form most contexts have. -/
def quoting (words : String) (subject : Text) (ending : String) : Text :=
  words.toList ++ " '".toList ++ subject ++ '\'' :: ending.toList

/-- The message a user reads. -/
def message : Context → Text
  | addingToRegister kind id =>
    "Failed to add ".toList ++ kind.label ++ quoting "" id " to the register"
  | addingToWorldState kind id =>
    "Failed to add ".toList ++ kind.label ++ quoting "" id " to the world state"
  | removingFromRegister kind id =>
    "Failed to remove ".toList ++ kind.label ++ quoting "" id " from the register"
  | removingFromWorldState kind id =>
    "Failed to remove ".toList ++ kind.label ++ quoting "" id " from the world state"
  | addingPassages event => quoting "Failed to add the passages of event" event " to the register"
  | removingPassages event =>
    quoting "Failed to remove the passages of event" event " from the register"
  | addingPassageId passage =>
    quoting "Failed to add passage id" passage.display "" ++
      quoting " to event" passage.event ""
  | addingPassage passage =>
    quoting "Failed to add passage" passage.display "" ++
      quoting " to the passage map of event" passage.event ""
  | removingPassageId passage =>
    quoting "Failed to remove passage id" passage.display "" ++
      quoting " from event" passage.event ""
  | removingPassage passage =>
    quoting "Failed to remove passage" passage.display "" ++
      quoting " from the passage map of event" passage.event ""
  | addingRace id => quoting "Failed to add race" id ""
  | removingRace id => quoting "Failed to remove race" id ""
  | reading path => quoting "Failed to read" path.text ""
  | rereading path => quoting "Failed to re-read" path.text ""
  | updating path => quoting "Failed to update" path.text ""
  | listing path => quoting "Failed to list" path.text ""
  | deleting path => quoting "Failed to delete" path.text ""
  | makingTemporary folder => quoting "Failed to create a temporary file in" folder.text ""
  | writing path => quoting "Failed to write" path.text ""
  | creating path => quoting "Failed to create" path.text ""
  | readingConfig path => quoting "Failed to read config file" path.text ""
  | parsingConfig path => quoting "Failed to parse config file" path.text ""
  | step name => quoting "Step" name " failed"
  | planning name => '\'' :: name ++ "' failed, nothing was written".toList
  | movingAside name => quoting "Applying" name " failed, nothing was written"
  | applying name => quoting "Applying" name " failed, already written files were restored"

end Context

/-- **A failure**: a problem, and the contexts it was seen in, outermost
first. -/
structure Failure where
  /-- The contexts, outermost first. -/
  contexts : List Context
  /-- What went wrong. -/
  problem : Problem
deriving DecidableEq, Repr

namespace Failure

/-- A problem without a context. -/
def of (problem : Problem) : Failure :=
  ⟨[], problem⟩

/-- **The message a user reads.** -/
def message (f : Failure) : Text :=
  Text.join ": ".toList (f.contexts.map Context.message ++ [f.problem.message])

/-- What the outermost context says, or else the problem. -/
def headline (f : Failure) : Text :=
  match f.contexts with
  | context :: _ => context.message
  | [] => f.problem.message

end Failure

/-- What can fail. -/
abbrev Outcome (α : Type) := Except Failure α

namespace Outcome

/-- A result, or the failure with a further context around it. -/
def within {α : Type} (context : Context) : Outcome α → Outcome α
  | .ok a => .ok a
  | .error f => .error ⟨context :: f.contexts, f.problem⟩

/-- A failure for a problem. -/
def fail {α : Type} (problem : Problem) : Outcome α :=
  .error (.of problem)

/-- The result of an edit. -/
def ofEdit {α : Type} : Except PatchError α → Outcome α
  | .ok a => .ok a
  | .error e => fail (.edit e)

/-- The result of an operation of the file system. -/
def ofDisk {α : Type} : Except DiskError α → Outcome α
  | .ok a => .ok a
  | .error e => fail (.disk e)

end Outcome

end Fabula
