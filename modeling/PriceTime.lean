import PriceTime.Book.Audit
import PriceTime.Book.Encoding
import PriceTime.Main
import PriceTime.Proofs.Agreement
import PriceTime.Proofs.AppendLog
import PriceTime.Proofs.AppendLog.Appends
import PriceTime.Proofs.AppendLog.Losses
import PriceTime.Proofs.Arena
import PriceTime.Proofs.Arena.Spare
import PriceTime.Proofs.Arrival
import PriceTime.Proofs.Book.Add
import PriceTime.Proofs.Book.Audit
import PriceTime.Proofs.Book.Census
import PriceTime.Proofs.Book.Consistent
import PriceTime.Proofs.Book.Fate
import PriceTime.Proofs.Book.Holdings
import PriceTime.Proofs.Book.Lifecycle
import PriceTime.Proofs.Book.Modify
import PriceTime.Proofs.Book.Parts
import PriceTime.Proofs.Book.Places
import PriceTime.Proofs.Book.Reentry
import PriceTime.Proofs.Book.Refinement
import PriceTime.Proofs.Book.Remove
import PriceTime.Proofs.Book.Resemblance
import PriceTime.Proofs.Book.Shape
import PriceTime.Proofs.Book.Solid
import PriceTime.Proofs.Book.Spare
import PriceTime.Proofs.Book.Stands
import PriceTime.Proofs.Book.Trade
import PriceTime.Proofs.Book.Views
import PriceTime.Proofs.Book.WellFormed
import PriceTime.Proofs.Calendar
import PriceTime.Proofs.Chain
import PriceTime.Proofs.Channel
import PriceTime.Proofs.Cleanup
import PriceTime.Proofs.ClosedLoop
import PriceTime.Proofs.Commutation
import PriceTime.Proofs.Encoding
import PriceTime.Proofs.Exactness
import PriceTime.Proofs.Feed
import PriceTime.Proofs.Figures
import PriceTime.Proofs.Float
import PriceTime.Proofs.History
import PriceTime.Proofs.Ladder
import PriceTime.Proofs.Ladder.PriceMap
import PriceTime.Proofs.Ledger
import PriceTime.Proofs.Level
import PriceTime.Proofs.Lifecycle
import PriceTime.Proofs.Locality
import PriceTime.Proofs.Lockstep
import PriceTime.Proofs.Logger.Completeness
import PriceTime.Proofs.Logger.Delivery
import PriceTime.Proofs.Logger.Isolation
import PriceTime.Proofs.Logger.Lane
import PriceTime.Proofs.Logger.Outputs
import PriceTime.Proofs.Logger.Progress
import PriceTime.Proofs.Logger.Steady
import PriceTime.Proofs.Logger.Threads
import PriceTime.Proofs.Market
import PriceTime.Proofs.Mirror.Book
import PriceTime.Proofs.Mirror.Figures
import PriceTime.Proofs.Mirror.Operation
import PriceTime.Proofs.Mirror.Queues
import PriceTime.Proofs.Mirror.Session
import PriceTime.Proofs.Mirror.Views
import PriceTime.Proofs.Operation
import PriceTime.Proofs.Outcome
import PriceTime.Proofs.Ownership
import PriceTime.Proofs.Parts
import PriceTime.Proofs.PlainBook
import PriceTime.Proofs.Queues
import PriceTime.Proofs.Queues.Spare
import PriceTime.Proofs.Queues.Traffic
import PriceTime.Proofs.Recycling
import PriceTime.Proofs.Reentry
import PriceTime.Proofs.Refinement
import PriceTime.Proofs.Rejection
import PriceTime.Proofs.Replay
import PriceTime.Proofs.Replay.Growth
import PriceTime.Proofs.Replay.Rows
import PriceTime.Proofs.Restart
import PriceTime.Proofs.Ring
import PriceTime.Proofs.Run
import PriceTime.Proofs.Safety
import PriceTime.Proofs.Spare
import PriceTime.Proofs.Surroundings
import PriceTime.Proofs.Text.Digits
import PriceTime.Proofs.Text.Reading
import PriceTime.Proofs.Text.Record
import PriceTime.Proofs.Text.Snapshot
