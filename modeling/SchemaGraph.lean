import SchemaGraph.Digest.Budget
import SchemaGraph.Digest.Metered
import SchemaGraph.Heap.Printer
import SchemaGraph.Recursion
import SchemaGraph.SchemaMap
import SchemaGraph.Settings.Session
import SchemaGraph.Workspace
import SchemaGraph.Proofs.Bisimulation
import SchemaGraph.Proofs.Comparison
import SchemaGraph.Proofs.LookUp
import SchemaGraph.Proofs.Counting
import SchemaGraph.Proofs.Unfolding
import SchemaGraph.Proofs.Reachable
import SchemaGraph.Proofs.Acceptance
import SchemaGraph.Proofs.Reinstall
import SchemaGraph.Proofs.Congruence
import SchemaGraph.Proofs.Traversal
import SchemaGraph.Proofs.Tree
import SchemaGraph.Proofs.CommonRecord
import SchemaGraph.Proofs.Defaults
import SchemaGraph.Proofs.InPlace
import SchemaGraph.Proofs.Mentions
import SchemaGraph.Proofs.Recursion
import SchemaGraph.Proofs.Renaming
import SchemaGraph.Proofs.SchemaMap
import SchemaGraph.Proofs.Cycles
import SchemaGraph.Proofs.Literals
import SchemaGraph.Proofs.Toml.Number
import SchemaGraph.Proofs.Toml.Text
import SchemaGraph.Proofs.Validity
import SchemaGraph.Proofs.FileTree
import SchemaGraph.Proofs.Toml.Document
import SchemaGraph.Proofs.Settings
import SchemaGraph.Proofs.Repetition
import SchemaGraph.Proofs.FieldEdits
import SchemaGraph.Proofs.Horizon
import SchemaGraph.Proofs.CreationOrder
import SchemaGraph.Proofs.Extension
import SchemaGraph.Proofs.Indistinguishable
import SchemaGraph.Proofs.Reloading
import SchemaGraph.Proofs.Appending
import SchemaGraph.Proofs.Metering
import SchemaGraph.Proofs.SuccessiveComparisons
