import BalancedTernary.Machine.Register
import BalancedTernary.Word

/-!
# Instruction formats

A format says how an instruction with given addressing modes is laid out: the eighteen trits of its
opcode, operand and mode trytes, and the trytes that extend them. `fill` writes the trits and
`scan` reads them back.
-/

namespace BalancedTernary

/-- How an operand is addressed: in a register, in memory at a register's value, as a value in the
instruction itself, or in memory at such a value. -/
inductive Mode where
  | register
  | indirect
  | immediate
  | direct
deriving DecidableEq, Repr

namespace Mode

def isMemory : Mode → Bool
  | register | immediate => false
  | indirect | direct => true

def isRegister : Mode → Bool
  | register | indirect => true
  | immediate | direct => false

def text : Mode → Text
  | register => ['r']
  | indirect => ['[', 'r', ']']
  | immediate => ['i']
  | direct => ['[', 'i', ']']

end Mode

/-- The trits that tell the operations of one family apart. -/
abbrev Variant := Vector Trit 2

def Variant.of (v w : Trit) : Variant := #v[v, w]

abbrev Registers := Vector Trit 3

/-- What stands at one trit of a format: a fixed trit, the register of an operand, or a trit of the
variant. -/
inductive FormatTrit where
  | fixed (trit : Trit)
  | register (operand : Fin 3)
  | variant (index : Fin 2)
deriving DecidableEq, Repr

namespace FormatTrit

def fill (registers : Registers) (v : Variant) : FormatTrit → Trit
  | fixed t => t
  | register i => registers[i]
  | variant i => v[i]

def glyph : FormatTrit → Char
  | fixed t => t.glyph
  | register 0 => 'x'
  | register 1 => 'y'
  | register 2 => 'z'
  | variant 0 => 'v'
  | variant 1 => 'w'

end FormatTrit

/-- A tryte after the first three: the value of an immediate operand, or zero. -/
inductive Extension where
  | operand (index : Fin 3)
  | padding
deriving DecidableEq, Repr

/-- What a format makes of a given row of trits. A register that it does not name is `none`. -/
structure Capture where
  registers : Vector (Option Register) 3
  variant : Variant
deriving DecidableEq, Repr

namespace Capture

def empty : Capture := ⟨#v[none, none, none], .of .zero .zero⟩

/-- Reads one trit; `none` when it is not the fixed one. -/
def read? (c : Capture) (t : Trit) : FormatTrit → Option Capture
  | .fixed want => if t = want then some c else none
  | .register i => some { c with registers := c.registers.set i (some t) }
  | .variant i => some { c with variant := c.variant.set i t }

/-- Reads trits until one differs from the fixed one. The answer holds what was read before it,
and whether all agreed. -/
def scan (c : Capture) : List FormatTrit → List Trit → Capture × Bool
  | place :: places, t :: ts =>
    match c.read? t place with
    | some c => c.scan places ts
    | none => (c, false)
  | _, _ => (c, true)

end Capture

structure Format where
  modes : List Mode
  trits : List FormatTrit
  extensions : List Extension
deriving DecidableEq, Repr

namespace Format

/-- The number of trytes that an instruction of this format takes. -/
def length (f : Format) : Nat := 3 + f.extensions.length

/-- The modes as they are written in a table, with commas between them. -/
def key (f : Format) : Text := Text.join [','] (f.modes.map Mode.text)

/-- The trits as they are written in a table, one text for each tryte. -/
def pattern (f : Format) : List Text :=
  let glyphs := f.trits.map FormatTrit.glyph
  [glyphs.take 6, (glyphs.drop 6).take 6, glyphs.drop 12]

/-- The opcode, operand and mode trytes. -/
def fill (f : Format) (registers : Registers) (v : Variant) : Word :=
  .ofTrits (f.trits.map (FormatTrit.fill registers v))

def scan (f : Format) (lead : Word) : Capture × Bool := Capture.empty.scan f.trits lead.trits

def match? (f : Format) (lead : Word) : Option Capture :=
  match f.scan lead with
  | (c, true) => some c
  | (_, false) => none

end Format

end BalancedTernary
