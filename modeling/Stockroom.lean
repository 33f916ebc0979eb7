import Stockroom.Value.Json
import Stockroom.Plan.Build
import Stockroom.Shop
import Stockroom.Proofs.Isolation
import Stockroom.Proofs.Exclusion
import Stockroom.Proofs.Atomicity
import Stockroom.Proofs.Building
import Stockroom.Proofs.Protocol
import Stockroom.Proofs.Rows
import Stockroom.Proofs.Waiting
import Stockroom.Proofs.Integrity
import Stockroom.Proofs.Meaning
import Stockroom.Proofs.NetEffect
import Stockroom.Proofs.SafeLoading
import Stockroom.Proofs.CommitPolicy
import Stockroom.Proofs.StockLedger
import Stockroom.Proofs.Spelling
import Stockroom.Proofs.StrictLookup
import Stockroom.Proofs.Deleting
import Stockroom.Proofs.FirstFault
import Stockroom.Proofs.Baseline
import Stockroom.Proofs.Ordering
import Stockroom.Proofs.Paging
import Stockroom.Proofs.Pricing
import Stockroom.Proofs.Acceptance
import Stockroom.Proofs.Grammar
import Stockroom.Proofs.Answering
import Stockroom.Proofs.Stopping
import Stockroom.Proofs.Related
import Stockroom.Proofs.Priorities
import Stockroom.Proofs.WriteOrder
import Stockroom.Proofs.Snapshots
import Stockroom.Proofs.IdentOrder
import Stockroom.Proofs.Skipping
import Stockroom.Proofs.LockSorting
import Stockroom.Proofs.Lookups
