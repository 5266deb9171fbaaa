import PagePool.Bits
import PagePool.Cache
import PagePool.Config
import PagePool.Error
import PagePool.Frames
import PagePool.Latch
import PagePool.Layout
import PagePool.Lock.Budget
import PagePool.Lock.Manager
import PagePool.Lock.Mode
import PagePool.Lock.Table
import PagePool.Multimap
import PagePool.Page
import PagePool.PageId
import PagePool.Pool.Access
import PagePool.Pool.Basic
import PagePool.Pool.Completion
import PagePool.Pool.Opening
import PagePool.Pool.Operation
import PagePool.Proofs.Cache
import PagePool.Proofs.Ends
import PagePool.Proofs.Geometry
import PagePool.Proofs.HeapPage
import PagePool.Proofs.Layout
import PagePool.Proofs.Lock.Acquire
import PagePool.Proofs.Lock.Deadlock
import PagePool.Proofs.Lock.Departure
import PagePool.Proofs.Lock.Docket
import PagePool.Proofs.Lock.Modes
import PagePool.Proofs.Lock.Patience
import PagePool.Proofs.Lock.Phantom
import PagePool.Proofs.Lock.Release
import PagePool.Proofs.Lock.Run
import PagePool.Proofs.Lock.Table
import PagePool.Proofs.Lock.Waking
import PagePool.Proofs.Page
import PagePool.Proofs.Pool.Access
import PagePool.Proofs.Pool.Completion
import PagePool.Proofs.Pool.Custody
import PagePool.Proofs.Pool.Evolution
import PagePool.Proofs.Pool.Flushing
import PagePool.Proofs.Pool.Halt
import PagePool.Proofs.Pool.Hold
import PagePool.Proofs.Pool.Likeness
import PagePool.Proofs.Pool.Lodging
import PagePool.Proofs.Pool.Operation
import PagePool.Proofs.Pool.Outage
import PagePool.Proofs.Pool.Parting
import PagePool.Proofs.Pool.Placing
import PagePool.Proofs.Pool.Retains
import PagePool.Proofs.Pool.Rows
import PagePool.Proofs.Pool.Seeking
import PagePool.Proofs.Pool.Standing
import PagePool.Proofs.Pool.Supply
import PagePool.Proofs.Pool.Tenure
import PagePool.Proofs.Pool.Untouched
import PagePool.Proofs.Pool.View
import PagePool.Proofs.Recency
import PagePool.Proofs.Search
import PagePool.Proofs.Session.Active
import PagePool.Proofs.Session.Capacity
import PagePool.Proofs.Session.Coherence
import PagePool.Proofs.Session.Commuting
import PagePool.Proofs.Session.Discipline
import PagePool.Proofs.Session.Dropping
import PagePool.Proofs.Session.Ending
import PagePool.Proofs.Session.Fallback
import PagePool.Proofs.Session.Flushing
import PagePool.Proofs.Session.Halt
import PagePool.Proofs.Session.History
import PagePool.Proofs.Session.Hold
import PagePool.Proofs.Session.Invariant
import PagePool.Proofs.Session.Ledger
import PagePool.Proofs.Session.Likeness
import PagePool.Proofs.Session.Loans
import PagePool.Proofs.Session.Overgrown
import PagePool.Proofs.Session.Placing
import PagePool.Proofs.Session.Recount
import PagePool.Proofs.Session.Register
import PagePool.Proofs.Session.Replay
import PagePool.Proofs.Session.Rows
import PagePool.Proofs.Session.Scan
import PagePool.Proofs.Session.Seeking
import PagePool.Proofs.Session.Serial
import PagePool.Proofs.Session.Step
import PagePool.Proofs.Session.Stretch
import PagePool.Proofs.Session.Supply
import PagePool.Proofs.Session.Tenure
import PagePool.Proofs.Session.Untouched
import PagePool.Proofs.Storage.Outline
import PagePool.Proofs.Storage.Pages
import PagePool.Proofs.Storage.Volume
import PagePool.Proofs.Together
import PagePool.Proofs.WaitFor
import PagePool.Schema
import PagePool.Session
import PagePool.Session.Batch
import PagePool.Storage.Directory
import PagePool.Storage.File
import PagePool.Storage.Table
import PagePool.Storage.Volume
import PagePool.Text.Hex
import PagePool.Text.Quoted
import PagePool.Text.Unsigned
import PagePool.Text.Visible
import PagePool.Tuple
import PagePool.WaitFor
