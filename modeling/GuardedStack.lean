import GuardedStack.Rehearsal.Bench
import GuardedStack.Session.Steps
import GuardedStack.Proofs.Custody
import GuardedStack.Proofs.Conduct
import GuardedStack.Proofs.Parcels
import GuardedStack.Proofs.Estate
import GuardedStack.Proofs.Ledger
import GuardedStack.Proofs.Deeds
import GuardedStack.Proofs.Ownership
import GuardedStack.Proofs.Thrift
import GuardedStack.Proofs.Acts
import GuardedStack.Proofs.Watch
import GuardedStack.Proofs.Asks
import GuardedStack.Proofs.Bids
import GuardedStack.Proofs.Contest
import GuardedStack.Proofs.Sole
import GuardedStack.Proofs.Stage
import GuardedStack.Proofs.Errands
import GuardedStack.Proofs.Tenure
import GuardedStack.Proofs.Isolation
import GuardedStack.Proofs.Course
import GuardedStack.Proofs.MainThread
import GuardedStack.Proofs.Conservation
import GuardedStack.Proofs.Account
import GuardedStack.Proofs.FailedStart
import GuardedStack.Proofs.Rounds
import GuardedStack.Proofs.ExitOrder
import GuardedStack.Proofs.Initialization
import GuardedStack.Proofs.Commission
import GuardedStack.Proofs.Service
import GuardedStack.Proofs.Handover
import GuardedStack.Proofs.Interception
import GuardedStack.Proofs.Footing
import GuardedStack.Proofs.Guarding
import GuardedStack.Proofs.Trial
import GuardedStack.Proofs.Retry
import GuardedStack.Proofs.Terms
import GuardedStack.Proofs.Entry
import GuardedStack.Proofs.Volume
import GuardedStack.Proofs.Bounds
import GuardedStack.Proofs.Journal
import GuardedStack.Proofs.Schedules
import GuardedStack.Proofs.Excerpt
import GuardedStack.Proofs.Transcript
import GuardedStack.Proofs.Undoing
import GuardedStack.Proofs.Admission
import GuardedStack.Proofs.Measures
import GuardedStack.Proofs.Geometry
import GuardedStack.Proofs.Addresses
import GuardedStack.Proofs.Rearming
import GuardedStack.Proofs.Reports
import GuardedStack.Proofs.Moves
import GuardedStack.Proofs.Holdings
import GuardedStack.Proofs.Delivery
