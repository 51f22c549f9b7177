import Panopticon.Library.Enumeration
import Panopticon.Library.Loop
import Panopticon.Library.Grouping
import Panopticon.Library.Multimap
import Panopticon.Library.Outcome
import Panopticon.Library.Word
import Panopticon.Library.Canonical
import Panopticon.Library.Joins
import Panopticon.Il
import Panopticon.BasicBlock
import Panopticon.AdjacencyList
import Panopticon.Removal
import Panopticon.Function
import Panopticon.Search
import Panopticon.Program
import Panopticon.Region
import Panopticon.Order
import Panopticon.Dominator
import Panopticon.Liveness
import Panopticon.Ssa
import Panopticon.Pipeline
import Panopticon.Evaluate
import Panopticon.Meaning
import Panopticon.Kset
import Panopticon.Avalue
import Panopticon.BoundedAddrTrack
import Panopticon.Widening
import Panopticon.Amd64.Disassembler
import Panopticon.Proofs.Operands
import Panopticon.Proofs.Decoding
import Panopticon.Proofs.Totality
import Panopticon.Proofs.Evaluate
import Panopticon.Proofs.Folding
import Panopticon.Proofs.Symbolic
import Panopticon.Proofs.Kset
import Panopticon.Proofs.Precision
import Panopticon.Proofs.Widening
import Panopticon.Library.Dominance
import Panopticon.Proofs.Store
import Panopticon.Proofs.Removal
import Panopticon.Proofs.Insertion
import Panopticon.Proofs.Region
import Panopticon.Proofs.Reading
import Panopticon.Proofs.Flatten
import Panopticon.Proofs.Order
import Panopticon.Proofs.Dominator
import Panopticon.Proofs.Frontier
import Panopticon.Proofs.DominatorTotal
import Panopticon.Proofs.Versions
import Panopticon.Proofs.Liveness
import Panopticon.Proofs.Renaming
import Panopticon.Proofs.PhiPlacement
import Panopticon.Proofs.LiveVariables
import Panopticon.Proofs.SsaForm
import Panopticon.Proofs.SsaFailure
import Panopticon.Proofs.FrontierTotal
import Panopticon.Proofs.Dominators
import Panopticon.Proofs.Traversal
import Panopticon.Proofs.DepthFirst
import Panopticon.Proofs.ExitValues
import Panopticon.Proofs.Conversion
import Panopticon.Proofs.Worklist
import Panopticon.Proofs.Sweep
import Panopticon.Proofs.Connect
import Panopticon.Proofs.Layout
import Panopticon.Proofs.Recovery
import Panopticon.Proofs.Discovery
import Panopticon.Proofs.Pipeline
import Panopticon.Proofs.Waves
import Panopticon.Proofs.Drivers
import Panopticon.Proofs.Resume
import Panopticon.Library.Gaps
import Panopticon.World
import Panopticon.Format
import Panopticon.Proofs.World
import Panopticon.Proofs.Format
import Panopticon.Proofs.Size
import Panopticon.Proofs.Queries
import Panopticon.Proofs.Residues
import Panopticon.Library.Program
import Panopticon.Execution
import Panopticon.Amd64.Semantic
import Panopticon.Proofs.WriteRegister
import Panopticon.Proofs.Addition
import Panopticon.Amd64.Encoding
import Panopticon.Proofs.Addressing
import Panopticon.Proofs.Subtraction
import Panopticon.Proofs.Aliasing
import Panopticon.Proofs.Extension
import Panopticon.Proofs.Arithmetic
import Panopticon.Proofs.Narrow
import Panopticon.Proofs.Connected
import Panopticon.Sugiyama.Placement
import Panopticon.Library.Chains
import Panopticon.Proofs.Layers
import Panopticon.Proofs.Alignment
import Panopticon.Proofs.Conflicts
import Panopticon.Library.Digits
import Panopticon.Avr.Semantic
import Panopticon.Proofs.Chain
import Panopticon.Proofs.Borrow
import Panopticon.Disassembler
import Panopticon.Proofs.Pattern
import Panopticon.Proofs.Matching
