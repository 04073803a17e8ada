import Transclusion.Config.Direct
import Transclusion.Source.Memory
import Transclusion.Command.Delivery
import Transclusion.Main
import Transclusion.Proofs.Path.Rooted
import Transclusion.Proofs.Merge.Total
import Transclusion.Proofs.Resolve.Document
import Transclusion.Proofs.Resolve.Composition
import Transclusion.Proofs.Resolve.Failure
import Transclusion.Proofs.Resolve.Depth
import Transclusion.Proofs.Resolve.Chain
import Transclusion.Proofs.Resolve.Graph
import Transclusion.Proofs.Value.Parsed
import Transclusion.Proofs.Merge.Associativity
import Transclusion.Proofs.Resolve.IncludeTree
import Transclusion.Proofs.Resolve.Flattening
import Transclusion.Proofs.Merge.Precedence
import Transclusion.Proofs.Resolve.Precedence
import Transclusion.Proofs.Resolve.Concatenation
import Transclusion.Proofs.Merge.Rekey
import Transclusion.Proofs.Resolve.Correspondence
import Transclusion.Proofs.Resolve.Directive
import Transclusion.Proofs.Resolve.Dependence
import Transclusion.Proofs.Resolve.Relocation
import Transclusion.Proofs.Merge.Mirror
import Transclusion.Proofs.Resolve.SharedChain
import Transclusion.Proofs.Document.Json
import Transclusion.Proofs.Document.Yaml
import Transclusion.Proofs.Merge.Conflict
import Transclusion.Proofs.Merge.Shape
import Transclusion.Proofs.Merge.Absorption
import Transclusion.Proofs.Merge.Strictness
import Transclusion.Proofs.Resolve.Kind
import Transclusion.Proofs.Resolve.Leniency
import Transclusion.Proofs.Yaml.Collision
import Transclusion.Proofs.Path.Joining
import Transclusion.Proofs.Resolve.Spelling
import Transclusion.Proofs.Document.Window
import Transclusion.Proofs.Document.Marker
import Transclusion.Proofs.Path.Form
import Transclusion.Proofs.Yaml.Embedding
import Transclusion.Proofs.Config.Saved
import Transclusion.Proofs.Config.Readers
