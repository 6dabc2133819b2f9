import Rtl.Json.Stored
import Rtl.Pipeline
import Rtl.Proofs.Connectives.Conjunction
import Rtl.Proofs.Connectives.Delimiting
import Rtl.Proofs.ConstructionOrder.Theorems
import Rtl.Proofs.Hidden.Naming
import Rtl.Proofs.Hidden.Transparency
import Rtl.Proofs.Interface.Abandoned
import Rtl.Proofs.Interface.Blocks
import Rtl.Proofs.Interface.Connections
import Rtl.Proofs.Interface.DataFlow
import Rtl.Proofs.Interface.External
import Rtl.Proofs.Interface.Fitting
import Rtl.Proofs.Interface.Flattening
import Rtl.Proofs.Interface.LeafNames
import Rtl.Proofs.Interface.Marks
import Rtl.Proofs.Interface.Mirror
import Rtl.Proofs.Interface.Ownership
import Rtl.Proofs.Interface.Parity
import Rtl.Proofs.Interface.Rebinding
import Rtl.Proofs.Interface.Returning
import Rtl.Proofs.Interface.Stores.Runs
import Rtl.Proofs.Interface.Tags
import Rtl.Proofs.Interface.Unfolding
import Rtl.Proofs.Layout.Indentation
import Rtl.Proofs.Layout.ReadingBack
import Rtl.Proofs.Layout.Selection
import Rtl.Proofs.Names.Sessions
import Rtl.Proofs.Names.Theorems
import Rtl.Proofs.Names.Unscoped
import Rtl.Proofs.Pipeline.Theorems
import Rtl.Proofs.Precedence.Printing
import Rtl.Proofs.Quotations.Theorems
import Rtl.Proofs.Rendering.Acceptance
import Rtl.Proofs.Rendering.Again
import Rtl.Proofs.Rendering.Totality
import Rtl.Proofs.Rendering.Writable
import Rtl.Proofs.Storage.Vectors
import Rtl.Proofs.Types.Assignments
import Rtl.Proofs.Types.Likeness
import Rtl.Proofs.Types.Requests
import Rtl.Proofs.Usage.Rejection
import Rtl.Proofs.Usage.Traversals
import Rtl.Proofs.Vectors.Sizes
