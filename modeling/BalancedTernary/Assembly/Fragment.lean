import BalancedTernary.Assembly.Data
import BalancedTernary.Assembly.Instruction
import BalancedTernary.Assembly.Source
import BalancedTernary.Assembly.SymbolTable

/-!
# Fragments

A fragment is what one statement contributes to an image. The labels of the statements are collected
on the way, each with the position of its fragment.
-/

namespace BalancedTernary.Assembly

structure Fragment where
  segment : Segment
  line : Nat
  label : Option Label
  source : Text
  trytes : List Relocatable
deriving DecidableEq, Repr

def Fragment.length (f : Fragment) : Nat := f.trytes.length

namespace Statement

/-- The label in front of the first colon, if there is a colon, and the rest. -/
def split (s : Statement) : Except Fault (Option Label × Text) :=
  match Text.cut? [':'] s.text with
  | none => .ok (none, Text.trim s.text)
  | some (head, rest) =>
    let name := Text.trim head
    if !Label.isName name then .error (.labelName name)
    else if (Register.ofName? name).isSome then .error (.labelIsRegister name)
    else .ok (some name, Text.trim rest)

/-- The fragment of a statement with the given label and body. -/
def encode (s : Statement) (label : Option Label) (body : Text) : Except Fault Fragment := do
  let trytes ←
    match s.segment with
    | .data => Data.assemble body
    | .code =>
      if body.isEmpty then .error (.noInstruction (label.getD []))
      else Instruction.assemble body
  return ⟨s.segment, s.line, label, body, trytes⟩

end Statement

/-- Records that the fragment at `position` has the given label. -/
def declare (symbols : SymbolTable Nat) (position : Nat) :
    Option Label → Except Fault (SymbolTable Nat)
  | none => .ok symbols
  | some label => symbols.define label position

namespace Fragment

/-- The fragment of a statement, and the symbols with its label among them. -/
def read (symbols : SymbolTable Nat) (position : Nat) (s : Statement) :
    Except Fault (SymbolTable Nat × Fragment) := do
  let (label, body) ← s.split
  let symbols ← declare symbols position label
  let fragment ← s.encode label body
  return (symbols, fragment)

/-- The fragments of the statements from `position` on. The first fault ends the reading. -/
def readFrom (symbols : SymbolTable Nat) (position : Nat) :
    List Statement → Except LineFault (SymbolTable Nat × List Fragment)
  | [] => .ok (symbols, [])
  | s :: rest =>
    match read symbols position s with
    | .error fault => .error ⟨s.line, fault⟩
    | .ok (symbols, fragment) =>
      (readFrom symbols (position + 1) rest).map fun (symbols, fragments) =>
        (symbols, fragment :: fragments)

def readAll (statements : List Statement) :
    Except LineFault (SymbolTable Nat × List Fragment) :=
  readFrom .empty 0 statements

end Fragment

end BalancedTernary.Assembly
