import Kortecx.Journal.MigrationSize
import Kortecx.Fleet.LastWord
import Kortecx.Fleet.Selection
import Kortecx.Runtime.Drive
import Kortecx.Executor.Slots
import Kortecx.Coordinator.ChainRecovery
import Kortecx.Coordinator.BackPressure
import Kortecx.Coordinator.Transcript
import Kortecx.Coordinator.RerankDelivery
import Kortecx.Coordinator.AtMostOnce
import Kortecx.Coordinator.Finality
import Kortecx.Trigger.Dedup
import Kortecx.App.Wiring
import Kortecx.App.Sequence
import Kortecx.Fleet.Work
import Kortecx.Planner.Lower
import Kortecx.Refusal
