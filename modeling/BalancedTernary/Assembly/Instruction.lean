import BalancedTernary.Assembly.Operand
import BalancedTernary.Assembly.Relocatable
import BalancedTernary.Machine.Family

/-!
# Instructions

`Instruction.parse` reads a mnemonic with its operands, `Instruction.check` holds them against the
rules of the family, and `Instruction.encode` gives the trytes.
-/

namespace BalancedTernary.Assembly

structure Instruction where
  /-- In lower case. -/
  mnemonic : Text
  family : Family
  variant : Variant
  /-- With the destination, if there is one, as the last. -/
  operands : List Operand
  hasDestination : Bool
deriving DecidableEq, Repr

namespace Instruction

/-- The mark in front of the destination. -/
def arrow : Char := '→'

/-- The mark may also be written as a hyphen and a greater-than sign. -/
def unifyArrows : Text → Text
  | '-' :: '>' :: s => arrow :: unifyArrows s
  | c :: s => c :: unifyArrows s
  | [] => []

/-- A mnemonic ends at white space or at a destination mark. -/
def inMnemonic (c : Char) : Bool := !Text.isBlank c && c != arrow

/-- The texts of the operands, and whether the last of them is a destination; `none` when there is
not exactly one after the mark. -/
def operandTexts? (s : Text) : Option (List Text × Bool) :=
  match Text.cut? [arrow] s with
  | none => some (Text.fields isSeparator s, false)
  | some (sources, destination) =>
    match Text.fields isSeparator destination with
    | [d] => some (Text.fields isSeparator sources ++ [d], true)
    | _ => none

def parse (body : Text) : Except Fault Instruction :=
  let body := unifyArrows body
  let mnemonic := body.takeWhile inMnemonic
  match Family.lookup? mnemonic with
  | some (family, some variant) =>
    let name := Text.lower mnemonic
    match operandTexts? (body.dropWhile inMnemonic) with
    | none => .error (.destinationCount name)
    | some (texts, hasDestination) => do
      let operands ← texts.mapM Operand.parse
      return ⟨name, family, variant, operands, hasDestination⟩
  | _ => .error (.instructionName mnemonic)

/-- The instruction as it is quoted in messages. -/
def text (i : Instruction) : Text :=
  let texts := i.operands.map Operand.text
  let sources := if i.hasDestination then texts.dropLast else texts
  i.mnemonic ++ (if sources.isEmpty then [] else ' ' :: Text.join [',', ' '] sources) ++
    (if i.hasDestination then [' ', arrow, ' '] ++ texts.getLastD [] else [])

def modes (i : Instruction) : List Mode := i.operands.map Operand.mode

def checkDestination (i : Instruction) : Except Fault Unit :=
  if i.family.hasDestination && !i.hasDestination then .error (.destinationMissing i.mnemonic)
  else if !i.family.hasDestination && i.hasDestination then
    .error (.destinationForbidden i.mnemonic)
  else .ok ()

def checkCount (i : Instruction) : Except Fault Unit :=
  let least := i.family.minOperands
  let most := i.family.maxOperands
  let count := i.operands.length
  if count < least ∨ most < count then .error (.operandCount i.mnemonic least most count)
  else .ok ()

def checkMemory (i : Instruction) : Except Fault Unit :=
  match i.family.memoryRule? with
  | none => .ok ()
  | some rule =>
    if rule.limit < i.operands.countP (·.memory) then .error (.memoryOperands i.text rule.reason)
    else .ok ()

def check (i : Instruction) : Except Fault Unit := do
  i.checkDestination
  i.checkCount
  i.checkMemory

def registers (i : Instruction) : Registers :=
  Vector.ofFn fun k => (i.operands[k.val]?.bind Operand.register?).getD .zero

/-- The tryte that carries the value of an immediate operand. -/
def immediate (i : Instruction) (o : Operand) : Relocatable :=
  match o.value with
  | .label label => if i.family.isRelative then .displacement label else .address label
  | .literal t => .tryte t
  | .register _ => .tryte .zero

def extension (i : Instruction) : Extension → Relocatable
  | .operand k => (i.operands[k.val]?.map i.immediate).getD (.tryte .zero)
  | .padding => .tryte .zero

def encode (i : Instruction) : Except Fault (List Relocatable) :=
  match i.family.format? i.modes with
  | none => .error (.operandModes i.text)
  | some format =>
    .ok ((format.fill i.registers i.variant).map .tryte ++ format.extensions.map i.extension)

/-- The trytes of the instruction that `body` holds. -/
def assemble (body : Text) : Except Fault (List Relocatable) := do
  let i ← parse body
  i.check
  i.encode

end Instruction

end BalancedTernary.Assembly
