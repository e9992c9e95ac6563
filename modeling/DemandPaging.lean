import DemandPaging.Instruction.Bench
import DemandPaging.Main
import DemandPaging.Proofs.Instruction.DataPages
import DemandPaging.Proofs.Instruction.RoundTrip
import DemandPaging.Proofs.PageTable.PageMap
import DemandPaging.Proofs.Swap.TokenMap
import DemandPaging.Proofs.Trace.Expansion
import DemandPaging.Proofs.Tlb.Recency
import DemandPaging.Proofs.Machine.Lifecycle
import DemandPaging.Proofs.Machine.Stray
import DemandPaging.Proofs.Machine.Restarts
import DemandPaging.Proofs.Pager.Roomy
import DemandPaging.Proofs.Pager.Inclusion
import DemandPaging.Proofs.Pager.Release
import DemandPaging.Proofs.Pager.Replacement
import DemandPaging.Proofs.Machine.Resolved
import DemandPaging.Proofs.Pager.Session
import DemandPaging.Scheduler.Recorded
import DemandPaging.Scheduler.Stacked
import DemandPaging.Proofs.Machine.Audit
import DemandPaging.Proofs.Machine.Punctuality
import DemandPaging.Proofs.Ram
import DemandPaging.Proofs.Text.Integer
import DemandPaging.Proofs.Timeline.History
