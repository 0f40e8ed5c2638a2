import DocSync.Abbreviation.Builtin
import DocSync.Abbreviation.Input
import DocSync.Completion
import DocSync.Config.Load
import DocSync.Diagnostics.Panel
import DocSync.Diagnostics.Store
import DocSync.Hover
import DocSync.Json.Writer
import DocSync.Message.Format
import DocSync.Proofs.AbbreviationEdits
import DocSync.Proofs.BusyMarks
import DocSync.Proofs.Closing
import DocSync.Proofs.CompletionDebounce
import DocSync.Proofs.CompletionPush
import DocSync.Proofs.ContentChanges
import DocSync.Proofs.DebouncedPushes
import DocSync.Proofs.EditedLines
import DocSync.Proofs.LineBreaks
import DocSync.Proofs.MarkedSpans
import DocSync.Proofs.MarkerLists
import DocSync.Proofs.MessageRoundTrips
import DocSync.Proofs.NonInterference
import DocSync.Proofs.Openings
import DocSync.Proofs.PublishedFailures
import DocSync.Proofs.PushOrder
import DocSync.Proofs.RequestLines
import DocSync.Proofs.ResponseRouting
import DocSync.Proofs.RememberedValues
import DocSync.Proofs.SharedPositions
import DocSync.Proofs.Shutdown
import DocSync.Proofs.SignalRounds
import DocSync.Proofs.TimerFirings
import DocSync.Proofs.WaitAnswers
import DocSync.Running
import DocSync.Server.Scripted
import DocSync.Signal.Script
import DocSync.Simulation
import DocSync.Timer.Group
import DocSync.Wait.Group
import DocSync.Proofs.AcceptedCompletions
import DocSync.Proofs.PositionRoundTrips
import DocSync.Abbreviation.Search
import DocSync.Proofs.AbbreviationSearch
import DocSync.Proofs.RunningWatchers
