import Scriptorium.Main
import Scriptorium.Script.Access
import Scriptorium.Proofs.Suggestion.BufferSafety
import Scriptorium.Proofs.Delimited.TableRoundTrip
import Scriptorium.Proofs.Editor.TokenSequence
import Scriptorium.Proofs.Settings.SaveAndLoad
import Scriptorium.Proofs.Table.Processing
import Scriptorium.Proofs.Suggestion.Ledger
import Scriptorium.Proofs.Editor.CodePosition
import Scriptorium.Proofs.Delimited.ProcessedRoundTrip
import Scriptorium.Proofs.Disk.Walks
import Scriptorium.Proofs.Disk.Siblings
import Scriptorium.Proofs.Document.Editing
import Scriptorium.Proofs.Registry.Building
import Scriptorium.Proofs.Registry.Disabled
import Scriptorium.Proofs.Editor.LineBreaks
import Scriptorium.Proofs.Suggestion.Explanation
import Scriptorium.Proofs.Text.Utf8
import Scriptorium.Proofs.Editor.LexemeCut
import Scriptorium.Proofs.Editor.TokenTiling
import Scriptorium.Proofs.Editor.TokenBoundary
import Scriptorium.Proofs.Editor.CompletionRanking
import Scriptorium.Proofs.Suggestion.Privacy
import Scriptorium.Proofs.Editor.TypedName
import Scriptorium.Proofs.Suggestion.OfflineCompletion
import Scriptorium.Proofs.Script.HostGate
import Scriptorium.Proofs.Script.LeafCalls
import Scriptorium.Proofs.Registry.ReadPaths
import Scriptorium.Proofs.Script.CallStyles
import Scriptorium.Proofs.Script.StopReasons
import Scriptorium.Script.Floor
import Scriptorium.Proofs.Document.Gates
import Scriptorium.Proofs.Script.RunGates
import Scriptorium.Proofs.Document.HandleTargets
import Scriptorium.Proofs.Settings.CommentLines
import Scriptorium.Proofs.Suggestion.Continuation
import Scriptorium.Proofs.Suggestion.Replacements
import Scriptorium.Proofs.Delimited.TypedColumns
import Scriptorium.Proofs.Host.Copying
import Scriptorium.Proofs.HostLog.Retention
import Scriptorium.Proofs.Settings.PartialSettings
import Scriptorium.Proofs.Suggestion.TypedWord
import Scriptorium.Proofs.Editor.CheckedEditing
import Scriptorium.Proofs.Suggestion.OfflineReplies
import Scriptorium.Proofs.Delimited.SniffedDelimiter
import Scriptorium.Proofs.Delimited.EmptyLines
import Scriptorium.Proofs.Table.RowOrder
import Scriptorium.Proofs.Numbers.CommonDivisors
import Scriptorium.Proofs.Numbers.TrialDivision
import Scriptorium.Proofs.Suggestion.ReplyCode
import Scriptorium.Proofs.Editor.Keystrokes
import Scriptorium.Proofs.Editor.LineRanges
import Scriptorium.Proofs.Script.TableReads
import Scriptorium.Proofs.Suggestion.TidyForm
import Scriptorium.Proofs.Suggestion.RequestRecord
import Scriptorium.Proofs.HostLog.Mirror
import Scriptorium.Proofs.Script.PrintedLines
