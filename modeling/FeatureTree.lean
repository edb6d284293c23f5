import FeatureTree.Document.Tree
import FeatureTree.Encoding
import FeatureTree.Outcome.Tally
import FeatureTree.Placeholder
import FeatureTree.Proofs.Assembly
import FeatureTree.Proofs.Coherence
import FeatureTree.Proofs.ColumnSets
import FeatureTree.Proofs.Deliveries
import FeatureTree.Proofs.Expansion
import FeatureTree.Proofs.Faithful
import FeatureTree.Proofs.Handlers
import FeatureTree.Proofs.Locations
import FeatureTree.Proofs.Occurrences
import FeatureTree.Proofs.Placeholders
import FeatureTree.Proofs.Provenance
import FeatureTree.Proofs.ReplayLog
import FeatureTree.Proofs.Resolution
import FeatureTree.Proofs.Substitution
import FeatureTree.Proofs.SyntaxErrors
import FeatureTree.Proofs.TagSets
import FeatureTree.Proofs.Tallies
import FeatureTree.Proofs.Traversal
import FeatureTree.Proofs.Walks
import FeatureTree.Tree.Visit
