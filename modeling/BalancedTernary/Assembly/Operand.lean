import BalancedTernary.Assembly.Fault
import BalancedTernary.Machine.Format
import BalancedTernary.Numeral.Basic

/-!
# Operands

An operand is a register, a label or a numeral of one tryte; brackets around it mean the memory at
that address. Register names come before labels, and labels before numerals.
-/

namespace BalancedTernary.Assembly

/-- Operands and data values are separated by commas and white space. -/
def isSeparator (c : Char) : Bool := c == ',' || Text.isBlank c

inductive Operand.Value where
  | register (register : Register)
  | literal (tryte : Tryte)
  | label (label : Label)
deriving DecidableEq, Repr

structure Operand where
  text : Text
  memory : Bool
  value : Operand.Value
deriving DecidableEq, Repr

namespace Operand

def mode (o : Operand) : Mode :=
  match o.value, o.memory with
  | .register _, false => .register
  | .register _, true => .indirect
  | _, false => .immediate
  | _, true => .direct

def register? (o : Operand) : Option Register :=
  match o.value with
  | .register r => some r
  | _ => none

/-- What stands between the brackets, without white space around it, if there are brackets. -/
def unbracket? (s : Text) : Option Text :=
  match s with
  | '[' :: rest => if rest.getLast? = some ']' then some (Text.trim rest.dropLast) else none
  | _ => none

def parseValue (s : Text) : Except Numeral.Fault Value :=
  match Register.ofName? s with
  | some r => .ok (.register r)
  | none =>
    if Label.isName s then .ok (.label s)
    else (Numeral.encode s .tryte).map fun word => .literal (word.headD .zero)

def parse (s : Text) : Except Fault Operand :=
  match parseValue ((unbracket? s).getD s) with
  | .error fault => .error (.operand s fault)
  | .ok value => .ok ⟨s, (unbracket? s).isSome, value⟩

end Operand

end BalancedTernary.Assembly
