import Nameless.Message.Session
import Nameless.Print.Script
import Nameless.Proofs.Apart
import Nameless.Proofs.Bracketing
import Nameless.Proofs.Capture
import Nameless.Proofs.Composition
import Nameless.Proofs.Halting
import Nameless.Proofs.Laziness
import Nameless.Proofs.Limit
import Nameless.Proofs.Literals
import Nameless.Proofs.Lowering
import Nameless.Proofs.Raising
import Nameless.Proofs.ReadBack
import Nameless.Proofs.Spans
import Nameless.Proofs.Uncovered
import Nameless.Proofs.Visible
import Nameless.Proofs.Strengthening
import Nameless.Proofs.Merging
import Nameless.Proofs.FewestParens
import Nameless.Proofs.LeastUnused
import Nameless.Proofs.SpanText
import Nameless.Proofs.Embedding
import Nameless.Proofs.Nesting
import Nameless.Proofs.UnusedHints
import Nameless.Proofs.LeftToRight
import Nameless.Proofs.Joining
import Nameless.Proofs.Literals
