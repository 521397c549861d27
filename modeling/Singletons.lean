import Singletons.Machine.Basic
import Singletons.Bootstrap
import Singletons.LogFile
import Singletons.Settings.Save
import Singletons.Proofs.Machine.Mutex
import Singletons.Proofs.Cache.Slots
import Singletons.Proofs.Creation.SlotMove
import Singletons.Proofs.Creation.SingleFlight
import Singletons.Proofs.Creation.OneInstance
import Singletons.Proofs.Machine.Alone
import Singletons.Proofs.Teardown.Destroys
import Singletons.Proofs.Teardown.Without
import Singletons.Proofs.Teardown.Closure
import Singletons.Proofs.Teardown.Order
import Singletons.Proofs.Teardown.Crossing
import Singletons.Proofs.Relation.Search
import Singletons.Proofs.Alias.Acyclic
import Singletons.Proofs.Graph.Agreement
import Singletons.Proofs.Teardown.Destruction
import Singletons.Proofs.Alias.Calls
import Singletons.Proofs.Machine.Aliases
import Singletons.Proofs.Teardown.Disposals
import Singletons.Proofs.Text.Bytes
import Singletons.Proofs.Placeholder.Template
import Singletons.Proofs.Placeholder.Rewriting
import Singletons.Proofs.Placeholder.Evaluation
import Singletons.Proofs.Placeholder.Stages
import Singletons.Proofs.Placeholder.Termination
import Singletons.Proofs.Creation.Bookkeeping
import Singletons.Proofs.Cache.Tables
import Singletons.Proofs.Alias.Declared
import Singletons.Proofs.Settings.Saved
import Singletons.Proofs.Creation.LookUp
import Singletons.Proofs.Teardown.Closed
import Singletons.Proofs.Teardown.Emptied
import Singletons.Proofs.Produced.Stable
import Singletons.Proofs.Produced.Origin
import Singletons.Proofs.Alias.Transparent
import Singletons.Proofs.Alias.Registration
import Singletons.Proofs.Alias.Refusal
import Singletons.Proofs.Alias.Permissive
import Singletons.Proofs.Relation.Collection
import Singletons.Proofs.Alias.Queries
import Singletons.Proofs.Alias.Outcome
import Singletons.Proofs.Alias.Blank
import Singletons.Proofs.Creation.EarlyReference
import Singletons.Proofs.Creation.Suppressed
import Singletons.Proofs.Creation.Rollback
import Singletons.Proofs.Produced.Mark
import Singletons.Proofs.Creation.EarlyProducer
import Singletons.Proofs.Graph.Dependence
import Singletons.Proofs.Teardown.Traversal
import Singletons.Proofs.Graph.Directions
import Singletons.Proofs.Produced.InCreation
import Singletons.Proofs.Placeholder.Offsets
import Singletons.Proofs.Settings.Bootstrap
