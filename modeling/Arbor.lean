import Arbor.Generator
import Arbor.Skeleton.Statistics
import Arbor.Stored.Numeral
import Arbor.Stored.Tree
import Arbor.Proofs.Footing
import Arbor.Proofs.Tips
import Arbor.Proofs.Thinning
import Arbor.Proofs.Nested
import Arbor.Proofs.Stack
import Arbor.Proofs.Accounting
import Arbor.Proofs.Growth
import Arbor.Proofs.Pruning
import Arbor.Proofs.SideBranch
import Arbor.Proofs.Custody
import Arbor.Proofs.Planting
import Arbor.Proofs.Refusal
import Arbor.Proofs.ClosedTube
import Arbor.Proofs.Layout
import Arbor.Proofs.Leaves
import Arbor.Proofs.Chance
import Arbor.Proofs.Warnings
import Arbor.Proofs.Rewriting
import Arbor.Proofs.Roots
import Arbor.Proofs.Expansion
import Arbor.Proofs.Merging
import Arbor.Proofs.Outline
import Arbor.Proofs.Tidying
import Arbor.Proofs.Continuity
import Arbor.Proofs.Census
import Arbor.Proofs.Edits
import Arbor.Proofs.Coverage
import Arbor.Proofs.Storage
