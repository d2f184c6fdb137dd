import VisualNovel.Main
import VisualNovel.Timer.EventLoop
import VisualNovel.Timer.Rehearsal
import VisualNovel.Proofs.Script.NodeKeys
import VisualNovel.Proofs.Script.Reachable
import VisualNovel.Proofs.Timer.Clock
import VisualNovel.Proofs.Timer.Queue
import VisualNovel.Proofs.Playback.Turns
import VisualNovel.Proofs.Playback.Calls
import VisualNovel.Proofs.Playback.Runs
import VisualNovel.Proofs.Playback.Sessions
import VisualNovel.Proofs.Playback.Alarms
import VisualNovel.Proofs.Playback.Settled
import VisualNovel.Proofs.Playback.Pairs
import VisualNovel.Proofs.Playback.StaleTimers
import VisualNovel.Proofs.Playback.Walks
import VisualNovel.Proofs.Playback.Visits
import VisualNovel.Proofs.Script.Links
import VisualNovel.Proofs.Script.Notices
import VisualNovel.Proofs.Script.Order
import VisualNovel.Proofs.Script.Snapshots
import VisualNovel.Proofs.Script.Repetitions
import VisualNovel.Proofs.Script.MadeUpNames
import VisualNovel.Proofs.Script.Spacing
import VisualNovel.Proofs.Script.Ignored
import VisualNovel.Proofs.Script.Appending
import VisualNovel.Proofs.Playback.Choices
import VisualNovel.Proofs.Playback.WaysOut
import VisualNovel.Proofs.Playback.History
import VisualNovel.Proofs.Playback.Delays
import VisualNovel.Proofs.Playback.Replays
import VisualNovel.Proofs.Playback.Pace
import VisualNovel.Proofs.Text.Numerals
import VisualNovel.Proofs.Json.Texts
import VisualNovel.Proofs.Json.Numbers
import VisualNovel.Proofs.Json.RoundTrip
import VisualNovel.Proofs.Calendar.Stored
import VisualNovel.Proofs.Save.Entries
import VisualNovel.Proofs.Save.Overwrites
import VisualNovel.Proofs.Save.Deletions
import VisualNovel.Proofs.Playback.Refusals
import VisualNovel.Proofs.Playback.Resumption
import VisualNovel.Proofs.Decimal.Nearest
import VisualNovel.Proofs.Decimal.Bits
import VisualNovel.Proofs.Decimal.Reading
import VisualNovel.Proofs.Decimal.Shortest
import VisualNovel.Proofs.Text.Casing
import VisualNovel.Proofs.Text.Lines
import VisualNovel.Proofs.Settings.Reading
import VisualNovel.Proofs.Settings.Precedence
import VisualNovel.Proofs.Timer.Chronicle
import VisualNovel.Proofs.Timer.Discipline
import VisualNovel.Proofs.Timer.Nesting
import VisualNovel.Proofs.Timer.Splits
import VisualNovel.Proofs.Timer.Rest
import VisualNovel.Proofs.Playback.Stretches
import VisualNovel.Proofs.Playback.BlankRuns
import VisualNovel.Proofs.Playback.Rest
import VisualNovel.Proofs.Terminal.Performance
import VisualNovel.Proofs.Terminal.Pump
import VisualNovel.Proofs.Terminal.Showings
import VisualNovel.Proofs.Playback.Reports
import VisualNovel.Proofs.Playback.TimeAlone
import VisualNovel.Proofs.Playback.Countdown
import VisualNovel.Proofs.Disk.Tree
import VisualNovel.Proofs.Json.Documents
import VisualNovel.Proofs.Save.Mirrors
import VisualNovel.Proofs.Playback.Offers
import VisualNovel.Proofs.Playback.Courses
import VisualNovel.Proofs.Playback.Deliveries
import VisualNovel.Proofs.Playback.Typewriter
import VisualNovel.Proofs.Playback.Timetable
import VisualNovel.Proofs.Playback.Punctuality
import VisualNovel.Proofs.Playback.Ledger
import VisualNovel.Proofs.Playback.Accounts
import VisualNovel.Proofs.Playback.Subscriptions
import VisualNovel.Proofs.Playback.Reentry
import VisualNovel.Proofs.Script.Findings
import VisualNovel.Proofs.Script.Dangling
import VisualNovel.Proofs.Timer.Idling
import VisualNovel.Proofs.Asset.Spellings
