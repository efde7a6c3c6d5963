import AccountChains.Intake.Pool
import AccountChains.Intake.Schedule
import AccountChains.Ledger.Session
import AccountChains.Settings.Node
import AccountChains.Store.Archive
import AccountChains.Store.Contents
import AccountChains.Store.Memory
import AccountChains.Work.Search
import AccountChains.Proofs.Block.Parsing
import AccountChains.Proofs.Intake.Arrival
import AccountChains.Proofs.Intake.Barrier
import AccountChains.Proofs.Intake.Charter
import AccountChains.Proofs.Intake.Displacement
import AccountChains.Proofs.Intake.Draining
import AccountChains.Proofs.Intake.Effort
import AccountChains.Proofs.Intake.Journal
import AccountChains.Proofs.Intake.Moves
import AccountChains.Proofs.Intake.Parking
import AccountChains.Proofs.Intake.Permanence
import AccountChains.Proofs.Intake.Remembering
import AccountChains.Proofs.Intake.Replacement
import AccountChains.Proofs.Intake.Retrieval
import AccountChains.Proofs.Intake.Screening
import AccountChains.Proofs.Intake.Sharing
import AccountChains.Proofs.Intake.Vouching
import AccountChains.Proofs.Ledger.Answering
import AccountChains.Proofs.Ledger.Atomicity
import AccountChains.Proofs.Ledger.Authenticity
import AccountChains.Proofs.Ledger.Conservation
import AccountChains.Proofs.Ledger.Epochs
import AccountChains.Proofs.Ledger.Hindsight
import AccountChains.Proofs.Ledger.Hints
import AccountChains.Proofs.Ledger.Occupancy
import AccountChains.Proofs.Ledger.Receivables
import AccountChains.Proofs.Ledger.Replay
import AccountChains.Proofs.Ledger.Representation
import AccountChains.Proofs.Ledger.RollingBack
import AccountChains.Proofs.Ledger.Slots
import AccountChains.Proofs.Ledger.Sources
import AccountChains.Proofs.Ledger.StandIn
import AccountChains.Proofs.Ledger.WellFormed
import AccountChains.Proofs.Record.Counted
import AccountChains.Proofs.Record.Form
import AccountChains.Proofs.Store.Agreement
import AccountChains.Proofs.Work.Completion
