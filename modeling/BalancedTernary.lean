import BalancedTernary.Main
import BalancedTernary.Proofs.Numeral
import BalancedTernary.Proofs.Format
import BalancedTernary.Proofs.InstructionSet
import BalancedTernary.Proofs.Decoding
import BalancedTernary.Proofs.Layout
import BalancedTernary.Proofs.Linking
import BalancedTernary.Proofs.Text
import BalancedTernary.Proofs.Printing
import BalancedTernary.Proofs.Reassembly
import BalancedTernary.Proofs.PrintedSource
import BalancedTernary.Proofs.Fragments
import BalancedTernary.Proofs.Tiling
import BalancedTernary.Proofs.RoundTrip
import BalancedTernary.Proofs.Extent
import BalancedTernary.Proofs.Symbols
import BalancedTernary.Proofs.Interleaving
import BalancedTernary.Proofs.Compaction
import BalancedTernary.Proofs.Reachability
import BalancedTernary.Proofs.Soundness
import BalancedTernary.Proofs.SourceLines
import BalancedTernary.Proofs.FirstFault
import BalancedTernary.Proofs.CheckedAccess
import BalancedTernary.Proofs.ImageText
import BalancedTernary.Proofs.Relocation
import BalancedTernary.Proofs.CheckedAssembly
import BalancedTernary.Proofs.CheckedDisassembly
import BalancedTernary.Proofs.LineNumbers
import BalancedTernary.Proofs.SourceEdits
import BalancedTernary.Proofs.ControlFlow
import BalancedTernary.Proofs.PrintedRows
import BalancedTernary.Proofs.Atomicity
import BalancedTernary.Proofs.Notation
import BalancedTernary.Proofs.NumeralGrammar
import BalancedTernary.Proofs.RowLabels
import BalancedTernary.Proofs.DataLabels
import BalancedTernary.Proofs.Widening
import BalancedTernary.Proofs.Acceptance
import BalancedTernary.Proofs.Tokens
import BalancedTernary.Proofs.Rendering
import BalancedTernary.Proofs.Patterns
import BalancedTernary.Proofs.WideWords
import BalancedTernary.Proofs.ListingLines
import BalancedTernary.Proofs.BaseAddresses
