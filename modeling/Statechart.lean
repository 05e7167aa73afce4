import Statechart.Actor.Application
import Statechart.Inspect.Config
import Statechart.Main
import Statechart.Proofs.Abandonment
import Statechart.Proofs.Advancing
import Statechart.Proofs.Answering
import Statechart.Proofs.Arena
import Statechart.Proofs.Asking
import Statechart.Proofs.Canonical
import Statechart.Proofs.Climbing
import Statechart.Proofs.Completion
import Statechart.Proofs.Confined
import Statechart.Proofs.Finishing
import Statechart.Proofs.Following
import Statechart.Proofs.Grammar
import Statechart.Proofs.Invocations
import Statechart.Proofs.Naming
import Statechart.Proofs.Observers
import Statechart.Proofs.Paths
import Statechart.Proofs.Persistence
import Statechart.Proofs.Preemption
import Statechart.Proofs.Rebuilding
import Statechart.Proofs.Resting
import Statechart.Proofs.Resumption
import Statechart.Proofs.Return
import Statechart.Proofs.Routing
import Statechart.Proofs.Scheduling
import Statechart.Proofs.Unchanged
