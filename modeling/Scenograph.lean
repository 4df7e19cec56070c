import Scenograph.Code.Draft
import Scenograph.Document.Code
import Scenograph.Layer.Check
import Scenograph.Main
import Scenograph.Proofs.Code.Draft
import Scenograph.Proofs.Composition.Cycles
import Scenograph.Proofs.Composition.DepthFirst
import Scenograph.Proofs.Composition.EdgeKinds
import Scenograph.Proofs.Composition.InDegrees
import Scenograph.Proofs.Digest.Framing
import Scenograph.Proofs.Document.Graph
import Scenograph.Proofs.Execution.Construction
import Scenograph.Proofs.Execution.ThemeRuns
import Scenograph.Proofs.Layer.Registry
import Scenograph.Proofs.Layer.Validity
import Scenograph.Proofs.Layer.Visual
import Scenograph.Proofs.Lowering.Calls
import Scenograph.Proofs.Lowering.Factories
import Scenograph.Proofs.Lowering.Imports
import Scenograph.Proofs.Lowering.Independence
import Scenograph.Proofs.Lowering.Members
import Scenograph.Proofs.Lowering.Retargeting
import Scenograph.Proofs.Lowering.Scope
import Scenograph.Proofs.Lowering.Totality
import Scenograph.Proofs.Rendering.KeyFrames
import Scenograph.Proofs.Rendering.Monoid
import Scenograph.Proofs.Rendering.Simplify
import Scenograph.Proofs.Source.Escapes
import Scenograph.Proofs.Source.Files
import Scenograph.Proofs.Source.Indentation
import Scenograph.Proofs.Source.LineEnds
import Scenograph.Proofs.Source.Numerals
import Scenograph.Proofs.Source.Sections
import Scenograph.Storage.Memory
