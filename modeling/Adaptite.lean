import Adaptite.Ambient
import Adaptite.Audit
import Adaptite.Boundary
import Adaptite.Callbacks
import Adaptite.CutOffs
import Adaptite.Deliveries
import Adaptite.Discards
import Adaptite.Draining
import Adaptite.EffectDrains
import Adaptite.EffectReruns
import Adaptite.Emissions
import Adaptite.Evaluations
import Adaptite.FlushRuns
import Adaptite.LiveEdges
import Adaptite.Loading
import Adaptite.LostMarks
import Adaptite.Orders
import Adaptite.Publishing
import Adaptite.Recording
import Adaptite.Restoring
import Adaptite.Settling
import Adaptite.SingleRuns
import Adaptite.Snapshot
import Adaptite.Subtrees
import Adaptite.Supersession
import Adaptite.Suppression
import Adaptite.Totals
import Adaptite.Retries
import Adaptite.Teardowns
import Adaptite.Unobtrusive
import Adaptite.Watch
import Adaptite.Generations
import Adaptite.Lending
