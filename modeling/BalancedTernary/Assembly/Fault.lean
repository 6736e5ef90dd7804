import BalancedTernary.Assembly.Label
import BalancedTernary.Numeral.Fault

/-! # Faults of a source text -/

namespace BalancedTernary.Assembly

inductive Fault where
  | numeral (fault : Numeral.Fault)
  | operand (source : Text) (fault : Numeral.Fault)
  | reference (label : Label) (fault : Numeral.Fault)
  | labelName (name : Text)
  | labelIsRegister (name : Text)
  | duplicateLabel (label : Label)
  | undefinedLabel (label : Label)
  /-- A label stands alone where an instruction is expected. -/
  | noInstruction (label : Label)
  | instructionName (mnemonic : Text)
  | dataType (name : Text)
  | emptyData
  | noValues (width : Width)
  | registerAsData (body value : Text)
  /-- There is not exactly one operand after a destination mark. -/
  | destinationCount (mnemonic : Text)
  | destinationMissing (mnemonic : Text)
  | destinationForbidden (mnemonic : Text)
  | operandCount (mnemonic : Text) (least most count : Nat)
  | memoryOperands (instruction : Text) (reason : String)
  /-- No format has the addressing modes of the operands. -/
  | operandModes (instruction : Text)
deriving DecidableEq, Repr

namespace Fault

def kind : Fault → FaultKind
  | numeral fault => fault.kind
  | operand _ fault => fault.kind
  | reference _ fault => fault.kind
  | labelName _ => .invalidLabelName
  | labelIsRegister _ => .invalidLabelName
  | duplicateLabel _ => .duplicateLabel
  | undefinedLabel _ => .undefinedLabel
  | noInstruction _ => .unknownMnemonic
  | instructionName _ => .unknownMnemonic
  | dataType _ => .unknownMnemonic
  | emptyData => .wrongOperandCount
  | noValues _ => .wrongOperandCount
  | registerAsData _ _ => .illegalOperands
  | destinationCount _ => .wrongOperandCount
  | destinationMissing _ => .destinationMismatch
  | destinationForbidden _ => .destinationMismatch
  | operandCount _ _ _ _ => .wrongOperandCount
  | memoryOperands _ _ => .illegalOperands
  | operandModes _ => .illegalOperands

def circumstances : Fault → String
  | numeral fault => fault.circumstances
  | operand source fault => s!"operand {String.ofList source}: {fault.circumstances}"
  | reference label fault => s!"reference to {Text.quoted label}: {fault.circumstances}"
  | labelName name => Text.quoted name
  | labelIsRegister name => s!"{Text.quoted name} is a register"
  | duplicateLabel label => Text.quoted label
  | undefinedLabel label => Text.quoted label
  | noInstruction label => s!"label {Text.quoted label} has no instruction"
  | instructionName mnemonic => s!"instruction {Text.quoted mnemonic}"
  | dataType name => s!"data type {Text.quoted name}"
  | emptyData => "empty data line"
  | noValues width => s!"{width.name} requires at least one value"
  | registerAsData body value =>
    s!"<{String.ofList body}> not allowed: register {String.ofList value} is not a data value"
  | destinationCount mnemonic =>
    s!"<{String.ofList mnemonic}> must have exactly one destination after →"
  | destinationMissing mnemonic => s!"<{String.ofList mnemonic}> must have destination"
  | destinationForbidden mnemonic => s!"<{String.ofList mnemonic}> cannot have destination"
  | operandCount mnemonic least most count =>
    if most = 0 then s!"<{String.ofList mnemonic}> cannot have operands"
    else if least = most then
      s!"<{String.ofList mnemonic}> must have exactly {least} operands, got {count}"
    else s!"<{String.ofList mnemonic}> must have {least} to {most} operands, got {count}"
  | memoryOperands instruction reason => s!"<{String.ofList instruction}> not allowed: {reason}"
  | operandModes instruction => s!"<{String.ofList instruction}> not allowed"

def message (f : Fault) : String := s!"{f.circumstances}: {f.kind.text}"

end Fault

/-- A fault and the number of the line that it stands on. -/
structure LineFault where
  line : Nat
  fault : Fault
deriving DecidableEq, Repr

def LineFault.message (f : LineFault) : String := s!"line {f.line}: {f.fault.message}"

end BalancedTernary.Assembly
