import HybridStep.Command.FileTree
import HybridStep.Main
import HybridStep.Proofs.Step.Agreement
import HybridStep.Proofs.Step.Freshness
import HybridStep.Proofs.Step.Ordering
import HybridStep.Proofs.Step.Coverage
import HybridStep.Proofs.Step.Identity
import HybridStep.Proofs.Step.Confluence
import HybridStep.Proofs.Encoding.Walks
import HybridStep.Proofs.Meaning.Exactness
import HybridStep.Proofs.Model.Sessions
import HybridStep.Proofs.Step.Naming
import HybridStep.Proofs.Step.Passing
import HybridStep.Proofs.Encoding.Footprint
import HybridStep.Proofs.Encoding.Narrowing
import HybridStep.Proofs.Encoding.Continuation
import HybridStep.Proofs.Schedule.Construction
import HybridStep.Proofs.Encoding.Positions
import HybridStep.Proofs.Encoding.Passes
import HybridStep.Proofs.Model.Texts
import HybridStep.Proofs.Model.Paths
import HybridStep.Proofs.Command.NameFilter
import HybridStep.Proofs.Number.Decimals
import HybridStep.Proofs.Smt.Lexicon
import HybridStep.Proofs.Body.Braces
