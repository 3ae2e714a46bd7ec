import SchemaLoom.Grammar.Builder
import SchemaLoom.FileSystem.Tree
import SchemaLoom.Main
import SchemaLoom.Document.Reader
import SchemaLoom.Proofs.Merge.Permutation
import SchemaLoom.Proofs.Normalization.OrderInvariance
import SchemaLoom.Proofs.Normalization.Frame
import SchemaLoom.Proofs.Normalization.ListedValues
import SchemaLoom.Proofs.Merge.NormalForms
import SchemaLoom.Proofs.Flattening.Entries
import SchemaLoom.Proofs.Merge.Conflicts
import SchemaLoom.Proofs.Merge.Absorption
import SchemaLoom.Proofs.Merge.Symmetry
import SchemaLoom.Proofs.Merge.Accounting
import SchemaLoom.Proofs.Joining
import SchemaLoom.Proofs.Difference.Entries
import SchemaLoom.Proofs.Difference.Faithfulness
import SchemaLoom.Proofs.Difference.Merges
import SchemaLoom.Proofs.Difference.Locations
import SchemaLoom.Proofs.Difference.Mirror
import SchemaLoom.Proofs.Identity
import SchemaLoom.Proofs.Registry
import SchemaLoom.Proofs.Walk
import SchemaLoom.Proofs.Flattening.Faithfulness
import SchemaLoom.Proofs.Flattening.Order
import SchemaLoom.Proofs.Flattening.Isolation
import SchemaLoom.Proofs.Flattening.Unsupported
import SchemaLoom.Proofs.Flattening.EntryPaths
import SchemaLoom.Proofs.Registry.Lookup
import SchemaLoom.Proofs.Registry.Accounting
import SchemaLoom.Proofs.Registry.Order
import SchemaLoom.Proofs.Workspace.Config
import SchemaLoom.Proofs.Document.CanonicalText
import SchemaLoom.Proofs.Pointer.Bijection
import SchemaLoom.Proofs.Identity.Spellings
import SchemaLoom.Proofs.Reference.Fragments
import SchemaLoom.Proofs.Grammar.Builder
import SchemaLoom.Proofs.Grammar.SortKey
