import BalancedTernary.Assembly.Label
import BalancedTernary.Tryte

/-! # Trytes that may depend on where a label is placed -/

namespace BalancedTernary.Assembly

inductive Relocatable where
  | tryte (tryte : Tryte)
  /-- The address of a label in the machine's memory. -/
  | address (label : Label)
  /-- The distance of a label from the end of the fragment that refers to it. -/
  | displacement (label : Label)
deriving DecidableEq, Repr

end BalancedTernary.Assembly
