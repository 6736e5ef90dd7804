import BalancedTernary.Machine.Family
import BalancedTernary.Text.Integer

/-!
# Decoded instructions

`decode?` recognises the instruction at the start of a row of trytes: the first format of the first
family that agrees with the trytes and has a mnemonic for the variant in them.
-/

namespace BalancedTernary.Disassembly

inductive Argument.Value where
  | register (register : Register)
  /-- A register that the format leaves out. -/
  | unknown
  | immediate (value : Int)
  /-- A displacement and the address that it leads to. -/
  | branch (displacement target : Int)
deriving DecidableEq, Repr

structure Argument where
  memory : Bool
  value : Argument.Value
deriving DecidableEq, Repr

structure Decoded where
  family : Family
  mnemonic : String
  arguments : List Argument
  /-- The number of trytes. -/
  length : Nat
deriving DecidableEq, Repr

/-- The value of the immediate operand `index` in the trytes after the first three. -/
def extensionValue (format : Format) (trytes : Word) (index : Nat) : Int :=
  let position? := format.extensions.findIdx? fun
    | .operand k => k.val = index
    | .padding => false
  ((position?.bind fun position => trytes[3 + position]?).map Tryte.toInt).getD 0

/-- The argument `index` of an instruction that ends at the address `stop`. -/
def argument (family : Family) (format : Format) (capture : Capture) (trytes : Word) (stop : Nat)
    (mode : Mode) (index : Nat) : Argument :=
  let value :=
    if mode.isRegister then
      match capture.registers[index]?.join with
      | some register => .register register
      | none => .unknown
    else
      let v := extensionValue format trytes index
      if family.isRelative then .branch v (stop + v) else .immediate v
  ⟨mode.isMemory, value⟩

/-- The instruction at `address` in the given format, if the trytes from there on hold one. -/
def decodeFormat? (address : Nat) (trytes : Word) (family : Family) (format : Format) :
    Option Decoded :=
  let trytes := trytes.take format.length
  let stop := address + format.length
  if trytes.length < format.length then none
  else
    (format.match? (trytes.take 3)).bind fun capture =>
      (family.mnemonic? capture.variant).map fun mnemonic =>
        { family
          mnemonic
          arguments := format.modes.zipIdx.map fun (mode, index) =>
            argument family format capture trytes stop mode index
          length := format.length }

/-- The instruction at `address`, where `trytes` is the image from there on. -/
def decode? (address : Nat) (trytes : Word) : Option Decoded :=
  Family.all.findSome? fun family =>
    family.formats.findSome? (decodeFormat? address trytes family)

namespace Decoded

/-- Whether the instruction never continues with the one after it. -/
def isTerminal (d : Decoded) : Bool := d.mnemonic == "jmp" || d.mnemonic == "restart"

/-- The addresses within an image of `size` trytes to which the instruction may branch. -/
def targets (size : Nat) (d : Decoded) : List Nat :=
  d.arguments.filterMap fun a =>
    match a.value with
    | .branch _ target => if 0 ≤ target ∧ target < size then some target.toNat else none
    | _ => none

/-- The addresses at which execution may continue after the instruction at `address`. -/
def successors (size address : Nat) (d : Decoded) : List Nat :=
  (if d.isTerminal then [] else [address + d.length]) ++ d.targets size

end Decoded

end BalancedTernary.Disassembly
