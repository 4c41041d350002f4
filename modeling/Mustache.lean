import Mustache.Session
import Mustache.Yaml.Printer
import Mustache.Proofs.RoundTrip
import Mustache.Proofs.Tokenization
import Mustache.Proofs.Nesting
import Mustache.Proofs.Positions
import Mustache.Proofs.Transcript
import Mustache.Proofs.RawBody
import Mustache.Proofs.Termination
import Mustache.Proofs.Callback
import Mustache.Proofs.Delivery
import Mustache.Proofs.Markup
import Mustache.Proofs.Levels
import Mustache.Proofs.LineEndings
import Mustache.Proofs.Background
import Mustache.Proofs.Gaps
import Mustache.Proofs.Suppression
import Mustache.Proofs.Cells
import Mustache.Proofs.Mirroring
import Mustache.Proofs.Isolation
import Mustache.Proofs.Environment
import Mustache.Proofs.Freshness
import Mustache.Proofs.Layout
import Mustache.Proofs.Standalone
import Mustache.Proofs.Form
import Mustache.Proofs.Comments
import Mustache.Proofs.Complements
import Mustache.Proofs.Paths
import Mustache.Proofs.Entities
import Mustache.Proofs.CheckedLoads
import Mustache.Proofs.Provenance
import Mustache.Proofs.ValidSettings
import Mustache.Proofs.Directory
import Mustache.Proofs.Merging
import Mustache.Proofs.Casing
import Mustache.Proofs.Overrides
import Mustache.Proofs.Priority
import Mustache.Proofs.Walking
