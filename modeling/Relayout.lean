import Relayout.Conversion
import Relayout.Logging
import Relayout.Proofs.Layout.Transpose
import Relayout.Source.Document
import Relayout.Target.Binary
import Relayout.Target.Document
import Relayout.Proofs.Calls
import Relayout.Proofs.Graph.Adaptation
import Relayout.Proofs.Graph.Adapting
import Relayout.Proofs.Graph.Arrangement
import Relayout.Proofs.Graph.Boundary
import Relayout.Proofs.Graph.Layouts
import Relayout.Proofs.Violations
import Relayout.Proofs.WellFormed
import Relayout.Proofs.TargetForm
import Relayout.Proofs.Graph.Edges
import Relayout.Proofs.Graph.Transposes
import Relayout.Proofs.Graph.Mentions
import Relayout.Proofs.Identity
import Relayout.Proofs.Strictness
import Relayout.Proofs.Preservation
import Relayout.Proofs.Target.Binary
import Relayout.Proofs.Graph.Forest
import Relayout.Proofs.Graph.Growth
import Relayout.Proofs.Graph.Topology
import Relayout.Proofs.Interface
import Relayout.Proofs.Layout.Moved
import Relayout.Proofs.Layout.Composition
import Relayout.Proofs.Target.Document
import Relayout.Proofs.Dimensions
import Relayout.Proofs.ShapeOperands
import Relayout.Proofs.ElementTypes
import Relayout.Proofs.Graph.Repeated
import Relayout.Proofs.Constants
import Relayout.Proofs.Graph.Redirection
import Relayout.Proofs.Graph.LiftedValues
import Relayout.Proofs.Target.Assignment
import Relayout.Proofs.Graph.Rereading
import Relayout.Proofs.Graph.History
import Relayout.Proofs.Target.Elements
import Relayout.Proofs.Graph.Reporting
import Relayout.Proofs.NodeNames
