import BalancedTernary.Assembly.Source
import BalancedTernary.Disassembly.Flow

/-!
# Rows

A disassembly is a list of rows, which cover the image from its first tryte to its last: an
instruction that execution can reach, or a run of trytes that are no such instruction.
-/

namespace BalancedTernary.Disassembly

inductive Row where
  | code (address : Nat) (decoded : Decoded)
  | data (address : Nat) (trytes : Word)
deriving DecidableEq, Repr

namespace Row

def segment : Row → Assembly.Segment
  | code _ _ => .code
  | data _ _ => .data

/-- The address of an instruction. -/
def codeAddress? : Row → Option Nat
  | code address _ => some address
  | data _ _ => none

/-- The rows of the cells from `address` on. The cells inside an instruction are part of its row,
whatever they hold themselves. -/
def ofCells (address : Nat) : List Cell → List Row
  | [] => []
  | (_, some d) :: rest => code address d :: ofCells (address + d.length) (rest.drop (d.length - 1))
  | (t, none) :: rest =>
    let run := rest.takeWhile fun cell => cell.2.isNone
    data address (t :: run.map Prod.fst) ::
      ofCells (address + 1 + run.length) (rest.dropWhile fun cell => cell.2.isNone)
termination_by cells => cells.length
decreasing_by
  · simp only [List.length_drop, List.length_cons]; omega
  · simp only [List.length_cons]
    have := (List.dropWhile_sublist (l := rest) fun cell => cell.2.isNone).length_le
    omega

end Row

/-- The addresses that instructions in reach branch to. -/
def branchTargets (cells : List Cell) : List Nat :=
  cells.flatMap fun (_, decoded?) => (decoded?.map (Decoded.targets cells.length)).getD []

/-- The addresses that get a label: those that are branched to and start a row of code. -/
def labelled (cells : List Cell) (rows : List Row) : List Nat :=
  let targets := branchTargets cells
  (rows.filterMap Row.codeAddress?).filter targets.contains

end BalancedTernary.Disassembly
