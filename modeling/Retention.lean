import Retention.Json.Reader
import Retention.Pool
import Retention.Service.Lifecycle
import Retention.Proofs.Policy.RoundTrip
import Retention.Proofs.Policy.Collecting
import Retention.Proofs.Policy.Collapse
import Retention.Proofs.Json.Keyed
import Retention.Proofs.Store.Agreement
import Retention.Proofs.Reconcile.Convergence
import Retention.Proofs.Reconcile.Outbox
import Retention.Proofs.Reconcile.Repeat
import Retention.Proofs.Reconcile.Alone
import Retention.Proofs.Reconcile.DryRun
import Retention.Proofs.Reconcile.Stale
import Retention.Proofs.Service.Refinement
import Retention.Proofs.Service.Course
import Retention.Proofs.Service.Validation
import Retention.Proofs.Rule.Congruence
import Retention.Proofs.Store.Difference
import Retention.Proofs.Service.Cancellation
import Retention.Proofs.Service.SentOnce
import Retention.Proofs.Policy.Codec
import Retention.Proofs.Rule.Path
import Retention.Proofs.Rule.FirstFault
import Retention.Proofs.Table.Listing
import Retention.Proofs.Store.Listing
import Retention.Proofs.Policy.Unwrapped
import Retention.Proofs.Service.WriteBack
import Retention.Proofs.Pool
import Retention.Proofs.Reconcile.Reported
import Retention.Proofs.Store.Missing
import Retention.Proofs.Table.Name
import Retention.Proofs.Service.Naming
import Retention.Proofs.Text.Points
import Retention.Proofs.Text.Segment
import Retention.Proofs.Policy.SameTree
import Retention.Proofs.Duration.Units
import Retention.Proofs.Store.Outcome
import Retention.Proofs.Service.ModeGiven
import Retention.Proofs.Policy.LiveAge
