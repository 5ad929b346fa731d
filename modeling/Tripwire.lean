import Tripwire.Main
import Tripwire.Proofs.Cache.Changes
import Tripwire.Proofs.Engine.Counters
import Tripwire.Proofs.Cache.Refinement
import Tripwire.Proofs.Coercion.Equality
import Tripwire.Proofs.Engine.Retention
import Tripwire.Proofs.Engine.Transparency
import Tripwire.Proofs.Expr.Bounds
import Tripwire.Proofs.Expr.Containment
import Tripwire.Proofs.Expr.Descent
import Tripwire.Proofs.Expr.Modes
import Tripwire.Proofs.Expr.RoundTrip
import Tripwire.Proofs.Token.Tiling
import Tripwire.Proofs.Trigger.Escape
import Tripwire.Proofs.Trigger.Failure
import Tripwire.Proofs.Trigger.Polling
import Tripwire.Proofs.Value.Arithmetic
import Tripwire.Proofs.Work.Drain
import Tripwire.Value.Json
import Tripwire.Proofs.Token.Munch
import Tripwire.Proofs.Trigger.Economy
import Tripwire.Proofs.Work.Service
import Tripwire.Proofs.Engine.Provenance
import Tripwire.Proofs.Grammar.Progress
import Tripwire.Proofs.Log.Losses
import Tripwire.Proofs.Config.RoundTrip
import Tripwire.Proofs.Command.Agreement
