import BalancedTernary.Disassembly.Row

/-! # Disassemblies as source text -/

namespace BalancedTernary.Disassembly

def labelName (address : Nat) : Text := "loc_".toList ++ Text.padLeft '0' 4 (Text.natural address)

namespace Argument

def bracket (memory : Bool) (s : Text) : Text := if memory then '[' :: s ++ [']'] else s

/-- A branch to one of the addresses `labels` is written with the label. -/
def text (labels : List Nat) (a : Argument) : Text :=
  match a.value with
  | .register register => bracket a.memory register.name.toList
  | .unknown => bracket a.memory ['r', '?']
  | .immediate v => bracket a.memory (Text.integer v)
  | .branch displacement target =>
    if 0 ≤ target ∧ target.toNat ∈ labels then labelName target.toNat
    else bracket a.memory (Text.signedInteger displacement)

end Argument

/-- A mnemonic in its column, and what follows it. -/
def mnemonicColumn (mnemonic rest : Text) : Text := Text.padRight 8 mnemonic ++ ' ' :: rest

def Decoded.text (labels : List Nat) (d : Decoded) : Text :=
  let arguments := d.arguments.map (Argument.text labels)
  if arguments.isEmpty then d.mnemonic.toList
  else if d.family.hasDestination then
    mnemonicColumn d.mnemonic.toList
      (Text.join [',', ' '] arguments.dropLast ++ [' ', '→', ' '] ++ arguments.getLastD [])
  else mnemonicColumn d.mnemonic.toList (Text.join [',', ' '] arguments)

/-- A label in its column, and what follows it. -/
def labelColumn (label rest : Text) : Text := Text.padRight 10 label ++ rest

def dataLine (trytes : Word) : Text :=
  labelColumn [] (mnemonicColumn "tryte".toList
    (Text.join [',', ' '] (trytes.map fun t => Text.integer t.toInt)))

namespace Row

/-- The lines of a row. Eight values go on a line of data. -/
def lines (labels : List Nat) : Row → List Text
  | code address d =>
    [labelColumn (if address ∈ labels then labelName address ++ [':'] else []) (d.text labels)]
  | data _ trytes => (trytes.rows 8).map dataLine

end Row

/-- The lines of the rows, with a section marker wherever the segment changes from `current`. -/
def printRows (labels : List Nat) (current : Option Assembly.Segment) : List Row → List Text
  | [] => []
  | row :: rest =>
    (if current = some row.segment then [] else [row.segment.text]) ++ row.lines labels ++
      printRows labels (some row.segment) rest

/-- A source text for the image. -/
def disassemble (image : Word) : Text :=
  let cells := cells image
  let rows := Row.ofCells 0 cells
  (printRows (labelled cells rows) none rows).flatMap fun line => line ++ ['\n']

end BalancedTernary.Disassembly
