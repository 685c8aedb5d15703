import TypeDeps.Digest.Sha256
import TypeDeps.Main
import TypeDeps.Proofs.CommandLine.Merge
import TypeDeps.Proofs.Disk.Interleavings
import TypeDeps.Proofs.Document.Keys
import TypeDeps.Proofs.Document.Positions
import TypeDeps.Proofs.Document.RoundTrip
import TypeDeps.Proofs.Graph.AllOrNothing
import TypeDeps.Proofs.Session.Course
import TypeDeps.Proofs.Session.Freshness
import TypeDeps.Proofs.Session.Runs
import TypeDeps.Proofs.Store.FailedWrites
import TypeDeps.Proofs.Store.Vouching
import TypeDeps.Session
import TypeDeps.Proofs.Graph.Drawing
import TypeDeps.Proofs.CommandLine.Check
import TypeDeps.Proofs.Graph.Edges
import TypeDeps.Proofs.Settings.RoundTrip
import TypeDeps.Proofs.Store.Containment
import TypeDeps.Proofs.Session.Finishing
import TypeDeps.Proofs.Session.Sharing
import TypeDeps.Proofs.Session.Filtering
import TypeDeps.Proofs.Document.Extent
import TypeDeps.Proofs.Graph.Clashes
import TypeDeps.Proofs.Session.Repeats
import TypeDeps.Proofs.Graph.Stretches
import TypeDeps.Proofs.Graph.FilteredImpact
import TypeDeps.Proofs.CommandLine.Stages
