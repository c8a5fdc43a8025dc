import VirtualShell.Calendar.Date
import VirtualShell.Calendar.Format
import VirtualShell.Calendar.Instant
import VirtualShell.Calendar.Stamp
import VirtualShell.Command.Basic
import VirtualShell.Command.Counting
import VirtualShell.Command.Directories
import VirtualShell.Command.Echo
import VirtualShell.Command.Files
import VirtualShell.Command.Grep
import VirtualShell.Command.Machine
import VirtualShell.Command.Manual
import VirtualShell.Command.Run
import VirtualShell.Command.Settings
import VirtualShell.Command.Table
import VirtualShell.CommandLine.Arguments
import VirtualShell.CommandLine.Run
import VirtualShell.Host.Basic
import VirtualShell.Host.Path
import VirtualShell.Host.StateFile
import VirtualShell.Json.Decode
import VirtualShell.Json.Reader
import VirtualShell.Json.Value
import VirtualShell.Line.Alias
import VirtualShell.Line.Tokens
import VirtualShell.Line.Variables
import VirtualShell.Main
import VirtualShell.Options
import VirtualShell.Options.Config
import VirtualShell.OrderedMap
import VirtualShell.Path
import VirtualShell.Pattern.Basic
import VirtualShell.Pattern.CharClass
import VirtualShell.Pattern.Error
import VirtualShell.Pattern.Match
import VirtualShell.Pattern.Reader
import VirtualShell.Proofs.Calendar.Days
import VirtualShell.Proofs.Calendar.StampRoundTrip
import VirtualShell.Proofs.Json.Records
import VirtualShell.Proofs.Json.RoundTrip
import VirtualShell.Proofs.Json.Strings
import VirtualShell.Proofs.Path.Join
import VirtualShell.Proofs.Path.Normal
import VirtualShell.Proofs.Path.Resolution
import VirtualShell.Proofs.Path.Tilde
import VirtualShell.Proofs.Shell.Agreement
import VirtualShell.Proofs.Shell.Histories
import VirtualShell.Proofs.Shell.Selection
import VirtualShell.Proofs.Shell.Removal
import VirtualShell.Proofs.Shell.Resumption
import VirtualShell.Proofs.Shell.SavedStates
import VirtualShell.Proofs.Shell.SessionEffects
import VirtualShell.Proofs.Shell.TreeEffects
import VirtualShell.Proofs.Shell.TreeRuns
import VirtualShell.Proofs.Text.Numerals
import VirtualShell.Proofs.Tree.Acceptance
import VirtualShell.Proofs.Tree.Codec
import VirtualShell.Proofs.Tree.Creation
import VirtualShell.Proofs.Tree.Evolution
import VirtualShell.Proofs.Tree.Links
import VirtualShell.Proofs.Tree.Mutation
import VirtualShell.Proofs.Tree.Relocation
import VirtualShell.Proofs.Tree.Starter
import VirtualShell.Proofs.Tree.Subtree
import VirtualShell.Proofs.Tree.Update
import VirtualShell.Session.Basic
import VirtualShell.Session.History
import VirtualShell.Shell
import VirtualShell.Snapshot
import VirtualShell.Terminal
import VirtualShell.Text.Blank
import VirtualShell.Text.CaseTable
import VirtualShell.Text.Letter
import VirtualShell.Text.Lines
import VirtualShell.Text.Lowercase
import VirtualShell.Text.Numeral
import VirtualShell.Toml.Basic
import VirtualShell.Toml.Quoted
import VirtualShell.Toml.Reader
import VirtualShell.Toml.Scalar
import VirtualShell.Tree.Basic
import VirtualShell.Tree.Consistent
import VirtualShell.Tree.Edit
import VirtualShell.Tree.Error
import VirtualShell.Tree.Fresh
import VirtualShell.Tree.Seed
import VirtualShell.Proofs.Tree.Walk
import VirtualShell.InPlace
import VirtualShell.Proofs.Tree.InPlace
import VirtualShell.Proofs.Shell.ReadOnlyRuns
import VirtualShell.Proofs.Shell.Refusals
import VirtualShell.Proofs.Tree.Relabelling
import VirtualShell.Proofs.Tree.Alike
import VirtualShell.Proofs.Shell.HiddenIds
import VirtualShell.Proofs.Shell.Damage
import VirtualShell.Proofs.Shell.UsageErrors
import VirtualShell.Proofs.Shell.DirectoryMirror
import VirtualShell.Proofs.Calendar.Rendering
import VirtualShell.Proofs.Line.Tokens
import VirtualShell.Proofs.Line.Aliases
import VirtualShell.Proofs.Tree.Effects
import VirtualShell.Proofs.Shell.Dispatch
import VirtualShell.Proofs.Shell.Replies
import VirtualShell.Proofs.Shell.LineFrame
import VirtualShell.Proofs.Shell.HistoryRuns
import VirtualShell.Proofs.Shell.HistoryWalks
import VirtualShell.Proofs.Shell.PreviousDirectory
import VirtualShell.Proofs.Line.CommandWords
import VirtualShell.Proofs.Host.Ways
import VirtualShell.Proofs.Host.Paths
import VirtualShell.Proofs.Host.Operations
import VirtualShell.Proofs.Host.Directories
import VirtualShell.Proofs.Host.Saving
import VirtualShell.Proofs.Host.Replacing
import VirtualShell.Proofs.Host.StateLaws
import VirtualShell.Proofs.Tree.Region
import VirtualShell.Proofs.Tree.Deletion
import VirtualShell.Proofs.Tree.Transfer
import VirtualShell.Proofs.CommandLine.Sessions
import VirtualShell.Proofs.Tree.Completion
import VirtualShell.Proofs.Tree.Placement
import VirtualShell.Proofs.Line.Quoting
import VirtualShell.Proofs.Line.Variables
import VirtualShell.Proofs.Shell.ReadBack
import VirtualShell.Proofs.Line.TokenCharacters
import VirtualShell.Proofs.Line.References
import VirtualShell.Proofs.Shell.AliasDefinitions
import VirtualShell.Proofs.Shell.StoredStates
import VirtualShell.Proofs.Shell.Operands
import VirtualShell.Proofs.Shell.Success
import VirtualShell.Proofs.Tree.Metadata
import VirtualShell.Proofs.Shell.MetadataRuns
import VirtualShell.Proofs.Text.Lines
import VirtualShell.Proofs.Text.Labels
import VirtualShell.Proofs.Shell.Numbering
import VirtualShell.Proofs.Shell.LineCounts
import VirtualShell.Proofs.Shell.Totals
import VirtualShell.Proofs.Shell.Searches
import VirtualShell.Proofs.Pattern.Classes
import VirtualShell.Proofs.Pattern.Matching
import VirtualShell.Proofs.Pattern.Literals
import VirtualShell.Proofs.Shell.PlainSearches
import VirtualShell.Proofs.Tree.Entries
import VirtualShell.Proofs.Shell.Listings
import VirtualShell.Proofs.Tree.WorkList
import VirtualShell.Proofs.Tree.Traversal
import VirtualShell.Proofs.Tree.Descendants
import VirtualShell.Proofs.Tree.Reachability
import VirtualShell.Proofs.Calendar.Conversions
import VirtualShell.Proofs.Shell.Dates
