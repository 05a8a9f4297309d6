import Fabula.Command.Level
import Fabula.Command.Request
import Fabula.Command.Run
import Fabula.Diff.Alignment
import Fabula.Diff.Hunk
import Fabula.Diff.Render
import Fabula.Diff.Script
import Fabula.Diff.Sliding
import Fabula.Diff.Snake
import Fabula.Disk.Basic
import Fabula.Disk.Error
import Fabula.Disk.Operations
import Fabula.Disk.Resolve
import Fabula.Failure
import Fabula.Fingerprint
import Fabula.Main
import Fabula.Naming.Entity
import Fabula.Naming.Id
import Fabula.Naming.PassageRef
import Fabula.Palette
import Fabula.Patch.Brace
import Fabula.Patch.Container
import Fabula.Patch.Engine
import Fabula.Patch.Error
import Fabula.Patch.Insertion
import Fabula.Patch.Removal
import Fabula.Path
import Fabula.Project.Config
import Fabula.Project.Confinement
import Fabula.Project.Layout
import Fabula.Project.Settings
import Fabula.Proofs.Command.DryRun
import Fabula.Proofs.Diff.Alignment
import Fabula.Proofs.Diff.Hunks
import Fabula.Proofs.Diff.Reading
import Fabula.Proofs.Disk.Folders
import Fabula.Proofs.Disk.Lexical
import Fabula.Proofs.Disk.Links
import Fabula.Proofs.Disk.Listing
import Fabula.Proofs.Disk.Making
import Fabula.Proofs.Disk.Outside
import Fabula.Proofs.Disk.Removal
import Fabula.Proofs.Disk.Tree
import Fabula.Proofs.Disk.Write
import Fabula.Proofs.Engine
import Fabula.Proofs.Naming.PassageRef
import Fabula.Proofs.Outcome
import Fabula.Proofs.Patch.BlankLines
import Fabula.Proofs.Patch.Brace
import Fabula.Proofs.Patch.Commuting
import Fabula.Proofs.Patch.Container
import Fabula.Proofs.Patch.Insertion
import Fabula.Proofs.Patch.KeyedEntries
import Fabula.Proofs.Patch.Lines
import Fabula.Proofs.Patch.Location
import Fabula.Proofs.Patch.Removal
import Fabula.Proofs.Patch.RoundTrip
import Fabula.Proofs.Path.Below
import Fabula.Proofs.Path.Components
import Fabula.Proofs.Path.Parent
import Fabula.Proofs.Path.Steps
import Fabula.Proofs.Path.Ways
import Fabula.Proofs.Project.Fields
import Fabula.Proofs.Project.Guarded
import Fabula.Proofs.Project.Loading
import Fabula.Proofs.Project.Places
import Fabula.Proofs.Project.Settings
import Fabula.Proofs.Project.Sources
import Fabula.Proofs.Project.Specifiers
import Fabula.Proofs.Registry.Edits
import Fabula.Proofs.Registry.Entries
import Fabula.Proofs.Registry.Formats
import Fabula.Proofs.Registry.Imports
import Fabula.Proofs.Registry.Ledger
import Fabula.Proofs.Registry.Loaders
import Fabula.Proofs.Registry.Passages
import Fabula.Proofs.Registry.Races
import Fabula.Proofs.Registry.Readings
import Fabula.Proofs.Registry.Record
import Fabula.Proofs.Registry.Restoring
import Fabula.Proofs.Registry.Sheet
import Fabula.Proofs.Registry.Siblings
import Fabula.Proofs.Registry.Symbols
import Fabula.Proofs.Scaffold.Batch
import Fabula.Proofs.Scaffold.Creations
import Fabula.Proofs.Scaffold.Generated
import Fabula.Proofs.Scaffold.Growths
import Fabula.Proofs.Scaffold.History
import Fabula.Proofs.Scaffold.Listing
import Fabula.Proofs.Scaffold.NewEntities
import Fabula.Proofs.Scaffold.PassagePlans
import Fabula.Proofs.Scaffold.Passages
import Fabula.Proofs.Scaffold.Plans
import Fabula.Proofs.Staging.Arrivals
import Fabula.Proofs.Staging.Calls
import Fabula.Proofs.Staging.Confined
import Fabula.Proofs.Staging.Effect
import Fabula.Proofs.Staging.Foresight
import Fabula.Proofs.Staging.Growth
import Fabula.Proofs.Staging.Moves
import Fabula.Proofs.Staging.Patches
import Fabula.Proofs.Staging.PathMap
import Fabula.Proofs.Staging.Place
import Fabula.Proofs.Staging.Progress
import Fabula.Proofs.Staging.Rollback
import Fabula.Proofs.Staging.Runs
import Fabula.Proofs.Staging.Spared
import Fabula.Proofs.Staging.Stale
import Fabula.Proofs.Staging.Success
import Fabula.Proofs.Template.Files
import Fabula.Proofs.Template.Literals
import Fabula.Proofs.Text.Occurrences
import Fabula.Proofs.Text.Pieces
import Fabula.Proofs.Text.Scan
import Fabula.Proofs.Text.Trim
import Fabula.Proofs.Toml.Document
import Fabula.Proofs.Union.Alternatives
import Fabula.Proofs.Union.Appending
import Fabula.Proofs.Union.Declaration
import Fabula.Proofs.Union.Dropping
import Fabula.Proofs.Union.Extension
import Fabula.Proofs.Union.Literals
import Fabula.Proofs.Union.Lookup
import Fabula.Proofs.Union.Never
import Fabula.Proofs.Union.Pieces
import Fabula.Proofs.Union.Quoted
import Fabula.Proofs.Union.Shrinking
import Fabula.Proofs.Union.Strings
import Fabula.Proofs.Union.Walls
import Fabula.Registry.Listing
import Fabula.Registry.PassageMap
import Fabula.Registry.Races
import Fabula.Scaffold.Dice
import Fabula.Scaffold.Entity
import Fabula.Scaffold.Event
import Fabula.Scaffold.Generate
import Fabula.Scaffold.Passage
import Fabula.Scaffold.Race
import Fabula.Staging.Commit
import Fabula.Staging.PathMap
import Fabula.Staging.Report
import Fabula.Staging.Script
import Fabula.Staging.Transaction
import Fabula.Staging.Trash
import Fabula.Staging.Workspace
import Fabula.Template.Entity
import Fabula.Template.Event
import Fabula.Template.Passage
import Fabula.Template.Race
import Fabula.Text.Basic
import Fabula.Text.Blank
import Fabula.Text.Case
import Fabula.Text.CaseTable
import Fabula.Text.CasedTable
import Fabula.Text.Line
import Fabula.Text.PrintableTable
import Fabula.Text.Quoted
import Fabula.Text.Scan
import Fabula.Toml.Blank
import Fabula.Toml.Document
import Fabula.Toml.Number
import Fabula.Toml.Quoted
import Fabula.Toml.Quoting
import Fabula.Toml.Reading
import Fabula.Toml.Table
import Fabula.Toml.Time
import Fabula.Union.Declaration
import Fabula.Union.Never
import Fabula.Union.Variant
