import DomainDiagram.Models
import DomainDiagram.Printing
import DomainDiagram.Workspace
import DomainDiagram.Query
import DomainDiagram.Proofs.Consistency
import DomainDiagram.Proofs.Canonicity
import DomainDiagram.Proofs.Exactness
import DomainDiagram.Proofs.Transparency
import DomainDiagram.Proofs.Collection
import DomainDiagram.Proofs.Substitution
import DomainDiagram.Proofs.Binding
import DomainDiagram.Proofs.Image
import DomainDiagram.Proofs.Shapes
import DomainDiagram.Proofs.Checks
import DomainDiagram.Proofs.Paths
import DomainDiagram.Proofs.Printed
import DomainDiagram.Proofs.Lineage
import DomainDiagram.Proofs.Settling
import DomainDiagram.Proofs.Balance
import DomainDiagram.Proofs.Ownership
import DomainDiagram.Proofs.Undisturbed
import DomainDiagram.Proofs.Allotment
import DomainDiagram.Proofs.Values
import DomainDiagram.Proofs.Dialogue
import DomainDiagram.Proofs.Ranges
import DomainDiagram.Proofs.Equality
import DomainDiagram.Proofs.Carrying
import DomainDiagram.Proofs.Concatenation
import DomainDiagram.Proofs.Totals
import DomainDiagram.Proofs.Unions
import DomainDiagram.Proofs.Sinks
import DomainDiagram.Proofs.Batches
import DomainDiagram.Proofs.Picking
import DomainDiagram.Proofs.Subfunctions
import DomainDiagram.Proofs.Retelling
import DomainDiagram.Proofs.Roundtrip
import DomainDiagram.Proofs.Slots
import DomainDiagram.Proofs.Granting
import DomainDiagram.Proofs.Lossy
import DomainDiagram.Proofs.Admitting
import DomainDiagram.Proofs.Numbering
import DomainDiagram.Proofs.Widths
import DomainDiagram.Proofs.Worklists
