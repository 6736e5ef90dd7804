/-!
# Kinds of faults

Every fault of a source text is of one of these kinds. A message gives the circumstances first and
the text of the kind last.
-/

namespace BalancedTernary

inductive FaultKind where
  | invalidLabelName
  | unknownMnemonic
  | wrongOperandCount
  | illegalOperands
  | destinationMismatch
  | invalidNumeral
  | valueOutOfRange
  | undefinedLabel
  | duplicateLabel
deriving DecidableEq, Repr

def FaultKind.text : FaultKind → String
  | invalidLabelName => "invalid label name"
  | unknownMnemonic => "unknown mnemonic or data type"
  | wrongOperandCount => "wrong operand count"
  | illegalOperands => "illegal operands"
  | destinationMismatch => "destination mismatch"
  | invalidNumeral => "invalid numeral literal"
  | valueOutOfRange => "value out of range"
  | undefinedLabel => "undefined label"
  | duplicateLabel => "duplicate label"

end BalancedTernary
