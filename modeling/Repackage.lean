import Repackage.ClassFile.Flags
import Repackage.Main
import Repackage.Proofs.Text.Segments
import Repackage.Proofs.Encoding.ModifiedUtf8
import Repackage.Proofs.Encoding.Malformed
import Repackage.Proofs.Encoding.Constants
import Repackage.Proofs.Encoding.Pieces
import Repackage.Proofs.Encoding.Attributes
import Repackage.Proofs.Encoding.ClassFile
import Repackage.Proofs.Pool.Lookup
import Repackage.Proofs.Renaming.Evolution
import Repackage.Proofs.Renaming.Steps
import Repackage.Proofs.Renaming.Attributes
import Repackage.Proofs.Renaming.Operations
import Repackage.Proofs.Grammar.Descriptor
import Repackage.Proofs.Renaming.ClassFile
import Repackage.Proofs.Renaming.Consistency
import Repackage.Proofs.Renaming.Order
import Repackage.Proofs.Encoding.Skeleton
import Repackage.Proofs.Encoding.Comparison
import Repackage.Proofs.Renaming.Tracking
import Repackage.Proofs.Renaming.Changes
import Repackage.Proofs.Grammar.Parser
import Repackage.Proofs.Grammar.Names
import Repackage.Proofs.Grammar.WellFormed
import Repackage.Proofs.Grammar.Signature
import Repackage.Proofs.Grammar.Recovery
import Repackage.Proofs.Renaming.Distinct
import Repackage.Proofs.Pool.Layout
import Repackage.Proofs.Encoding.WellFormed
import Repackage.Proofs.Encoding.Recovery
import Repackage.Proofs.Encoding.Decoding
import Repackage.Proofs.Renaming.Names
import Repackage.Proofs.Renaming.Traversal
import Repackage.Proofs.Renaming.Inert
import Repackage.Proofs.Grammar.Exchange
import Repackage.Proofs.Renaming.Stability
import Repackage.Proofs.Renaming.Rereading
import Repackage.Proofs.Renaming.Lockstep
import Repackage.Proofs.Renaming.Repetition
import Repackage.Proofs.Encoding.Truncation
import Repackage.Proofs.Encoding.Lengths
import Repackage.Proofs.Renaming.Failures
import Repackage.Proofs.Renaming.Relocation
import Repackage.Proofs.Files.Tree
import Repackage.Proofs.Command.Run
import Repackage.Proofs.Rules.Table
import Repackage.Proofs.Rules.Substitution
import Repackage.Proofs.Rules.Selection
import Repackage.Proofs.Rules.LongestMatch
import Repackage.Proofs.Rules.ClassNames
import Repackage.Proofs.Rules.Inversion
import Repackage.Proofs.Rules.Order
import Repackage.Proofs.Renaming.Trees
import Repackage.Proofs.Renaming.References
import Repackage.Proofs.Pool.Edits
import Repackage.Proofs.Pool.Addresses
import Repackage.Proofs.Pool.FirstIndex
import Repackage.Proofs.Text.Trimming
import Repackage.Proofs.Command.RuleFiles
