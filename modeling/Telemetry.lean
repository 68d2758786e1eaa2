import Telemetry.Http.Message
import Telemetry.Session.Activity
import Telemetry.Session.Registration
import Telemetry.Proofs.Registry.Consistency
import Telemetry.Proofs.Registry.Lifetime
import Telemetry.Proofs.Registry.Removal
import Telemetry.Proofs.Registry.Independence
import Telemetry.Proofs.Export.Completeness
import Telemetry.Proofs.Export.Figures
import Telemetry.Proofs.Export.Units
import Telemetry.Proofs.Exposition.Uniqueness
import Telemetry.Proofs.Exposition.Dialects
import Telemetry.Proofs.Exposition.Precedence
import Telemetry.Proofs.Exposition.Endings
import Telemetry.Proofs.Exposition.Joints
import Telemetry.Proofs.Exposition.Labels
import Telemetry.Proofs.Exposition.Layout
import Telemetry.Proofs.Json.Counters
import Telemetry.Proofs.Pace.Credit
import Telemetry.Proofs.Sampling.Reservoir
import Telemetry.Proofs.Sampling.Rank
import Telemetry.Proofs.Identity
import Telemetry.Proofs.Name.Stages
import Telemetry.Proofs.Text.Escape
import Telemetry.Proofs.Tag.Expression
import Telemetry.Proofs.Export.Interleaving
import Telemetry.Proofs.Export.Restriction
import Telemetry.Proofs.Http.Answers
import Telemetry.Proofs.Http.Negotiation
import Telemetry.Proofs.World.Scopes
import Telemetry.Proofs.World.Scrapes
import Telemetry.Proofs.World.Threads
import Telemetry.Proofs.World.Timings
