import Gaudere.Budget.Cutoff
import Gaudere.Budget.Identity
import Gaudere.Budget.Limits
import Gaudere.Budget.Optimality
import Gaudere.Budget.PolicyChanges
import Gaudere.Budget.RealTime
import Gaudere.Budget.Snapshot
import Gaudere.Budget.Threshold
import Gaudere.Persistence.Migration
import Gaudere.Persistence.Recovery
import Gaudere.Persistence.Transactions
import Gaudere.Scheduling.Liveness
import Gaudere.Scheduling.RelativeRequests
import Gaudere.Scheduling.Wakeups
import Gaudere.Wake.Interruptions
import Gaudere.Wake.Persistence
import Gaudere.Wake.Shutdown
import Gaudere.Wake.Stranding
import Gaudere.WakeIntents.Admission
import Gaudere.WakeIntents.Commuting
import Gaudere.WakeIntents.Constraints
import Gaudere.WakeIntents.Fleet
import Gaudere.WakeIntents.RealTime
import Gaudere.WakeIntents.Reconciling
import Gaudere.WakeIntents.Runtime
import Gaudere.WakeIntents.Scopes
import Gaudere.WakeIntents.Settlement
import Gaudere.Work.Dispatch
import Gaudere.Work.Draining
import Gaudere.Work.Fairness
import Gaudere.Work.Interruptions
import Gaudere.Work.Persistence
import Gaudere.Work.Progress
import Gaudere.Work.RecoveryDeadline
import Gaudere.Work.Stores
