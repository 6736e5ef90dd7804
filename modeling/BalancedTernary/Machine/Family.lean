import BalancedTernary.Machine.Format

/-!
# Families of instructions

The instruction set: eight families, each with its mnemonics, its rules on operands and its formats.
-/

namespace BalancedTernary

inductive Family where
  | move
  | fill
  | transfer
  | add
  | bitwise
  | compare
  | jump
  | restart
deriving DecidableEq, Repr

/-- Which mnemonics belong to a family: those with a given beginning, those with a given end, or its
own alone. -/
inductive Naming where
  | starts (part : String)
  | ends (part : String)
  | exact
deriving DecidableEq, Repr

/-- A limit on operands in memory, and the reason given when it is passed. -/
structure MemoryRule where
  limit : Nat
  reason : String
deriving DecidableEq, Repr

namespace FormatTrit

abbrev n : FormatTrit := fixed .neg
abbrev o : FormatTrit := fixed .zero
abbrev p : FormatTrit := fixed .pos
abbrev x : FormatTrit := register 0
abbrev y : FormatTrit := register 1
abbrev z : FormatTrit := register 2
abbrev v : FormatTrit := variant 0
abbrev w : FormatTrit := variant 1

end FormatTrit

namespace Format

def tryte (a b c d e f : FormatTrit) : List FormatTrit := [a, b, c, d, e, f]

open FormatTrit

/-- The formats of the families with two sources and a destination. The opcode tryte depends on the
number of extensions, and the operand tryte starts with the two trits `select`. -/
def arithmetic (plain one two select : List FormatTrit) : List Format :=
  [⟨[.register, .register, .register],
    plain ++ select ++ [o, o, y, x] ++ tryte p z p o o o, []⟩,
   ⟨[.register, .register, .direct],
    one ++ select ++ [o, o, y, x] ++ tryte o o o p p p, [.operand 2]⟩,
   ⟨[.register, .immediate, .direct],
    two ++ select ++ [o, n, o, x] ++ tryte o o o p p p, [.operand 2, .operand 1]⟩,
   ⟨[.register, .immediate, .register],
    one ++ select ++ [o, p, o, x] ++ tryte p z p o o o, [.operand 1]⟩,
   ⟨[.register, .immediate, .indirect],
    one ++ select ++ [o, o, z, o] ++ tryte o o o p o p, [.operand 1]⟩,
   ⟨[.indirect, .immediate, .register],
    one ++ select ++ [n, p, x, o] ++ tryte p z p o o o, [.operand 1]⟩,
   ⟨[.direct, .immediate, .register],
    two ++ select ++ [n, n, o, o] ++ tryte p z p o p o, [.operand 0, .operand 1]⟩,
   ⟨[.direct, .register, .register],
    one ++ select ++ [n, o, y, o] ++ tryte p z p o p o, [.operand 0]⟩]

end Format

namespace Family

open FormatTrit Format

/-- The families in the order in which mnemonics and trytes are tried against them. -/
def all : List Family := [move, fill, transfer, add, compare, jump, restart, bitwise]

def name : Family → String
  | move => "move"
  | fill => "fill"
  | transfer => "transfer"
  | add => "add"
  | bitwise => "bitwise"
  | compare => "compare"
  | jump => "jump"
  | restart => "restart"

def naming : Family → Naming
  | move => .starts "mov"
  | fill => .starts "fill"
  | transfer => .ends "ti"
  | add => .starts "ad"
  | bitwise => .exact
  | compare => .starts "cmp"
  | jump => .starts "j"
  | restart => .starts "restart"

/-- The mnemonics in alphabetical order, each with the variant that it selects. -/
def variants : Family → List (String × Variant)
  | move => [("mov", .of .zero .zero)]
  | fill => [("filln", .of .neg .zero), ("fillp", .of .pos .zero), ("fillz", .of .zero .zero)]
  | transfer => [("nti", .of .neg .zero), ("pti", .of .pos .zero), ("sti", .of .zero .zero)]
  | add => [("adc", .of .pos .zero), ("add", .of .neg .zero)]
  | bitwise =>
    [("nand", .of .zero .neg), ("nany", .of .pos .neg), ("ncon", .of .zero .pos),
     ("nor", .of .zero .zero), ("tmul", .of .pos .pos)]
  | compare => [("cmp", .of .zero .zero)]
  | jump =>
    [("je", .of .zero .zero), ("jeg", .of .pos .neg), ("jg", .of .zero .pos),
     ("jl", .of .zero .neg), ("jle", .of .pos .pos), ("jlg", .of .pos .zero),
     ("jmp", .of .neg .zero), ("jne", .of .pos .zero), ("jng", .of .pos .pos),
     ("jnl", .of .pos .neg)]
  | restart => [("restart", .of .zero .zero)]

/-- Whether the last operand stands after a destination mark; the other families allow no mark. -/
def hasDestination : Family → Bool
  | move | transfer | add | bitwise => true
  | fill | compare | jump | restart => false

def minOperands : Family → Nat
  | move | transfer | compare => 2
  | fill | jump => 1
  | add | bitwise => 3
  | restart => 0

def maxOperands : Family → Nat
  | move | fill | transfer | compare | jump => 2
  | add | bitwise => 3
  | restart => 0

/-- Whether an immediate operand is a displacement from the end of the instruction. -/
def isRelative : Family → Bool
  | jump => true
  | _ => false

def memoryRule? : Family → Option MemoryRule
  | move | transfer | compare => some ⟨1, "at most one memory operand"⟩
  | add | bitwise => some ⟨1, "at most one memory operand among the three"⟩
  | jump => some ⟨0, "jump targets cannot be memory references"⟩
  | fill | restart => none

def formats : Family → List Format
  | move =>
    [⟨[.register, .register], tryte n o o o o n ++ tryte o o o o o x ++ tryte o y p o o o, []⟩,
     ⟨[.indirect, .register], tryte n o o o o n ++ tryte o o o o x o ++ tryte n y p o o o, []⟩,
     ⟨[.direct, .register],
      tryte o o o o o n ++ tryte o o o o o o ++ tryte n y p o p o, [.operand 0]⟩,
     ⟨[.immediate, .register],
      tryte o o o o o n ++ tryte o o o p o o ++ tryte o y p o o o, [.operand 0]⟩,
     ⟨[.register, .indirect], tryte n o o o o n ++ tryte o o o o y x ++ tryte o o o n o p, []⟩,
     ⟨[.immediate, .indirect],
      tryte p o o o o n ++ tryte o o o o y o ++ tryte o o o o o p, [.padding, .operand 0]⟩,
     ⟨[.register, .direct],
      tryte o o o o o n ++ tryte o o o o o x ++ tryte o o o n p p, [.operand 1]⟩,
     ⟨[.immediate, .direct],
      tryte p o o o o n ++ tryte o o o o o o ++ tryte o o o o p p, [.operand 1, .operand 0]⟩]
  | fill =>
    [⟨[.register], tryte n o v o o n ++ tryte o o o o o o ++ tryte o x n o o o, []⟩,
     ⟨[.indirect], tryte n o v o o n ++ tryte o o o o x o ++ tryte o o o o o n, []⟩,
     ⟨[.direct], tryte o o v o o n ++ tryte o o o o o o ++ tryte o o o o p n, [.operand 0]⟩,
     ⟨[.register, .indirect], tryte n o v o o n ++ tryte o o o o y o ++ tryte o x n o o n, []⟩,
     ⟨[.register, .direct],
      tryte o o v o o n ++ tryte o o o o o o ++ tryte o x n o p n, [.operand 1]⟩]
  | transfer =>
    [⟨[.register, .register], tryte n o o o o n ++ tryte n v o o o x ++ tryte p y p p o o, []⟩,
     ⟨[.register, .indirect], tryte n o o o o n ++ tryte n v o o y x ++ tryte o o o p o p, []⟩,
     ⟨[.register, .direct],
      tryte o o o o o n ++ tryte n v o o o x ++ tryte o o o p p p, [.operand 1]⟩,
     ⟨[.indirect, .register], tryte n o o o o n ++ tryte n v o o x o ++ tryte p y p o o o, []⟩,
     ⟨[.direct, .register],
      tryte o o o o o n ++ tryte n v o o o o ++ tryte p y p o p o, [.operand 0]⟩]
  | add => arithmetic (tryte n o o v o n) (tryte o o o v o n) (tryte p o o v o n) [p, o]
  | bitwise => arithmetic (tryte n o o o o n) (tryte o o o o o n) (tryte p o o o o n) [v, w]
  | compare =>
    [⟨[.register, .register], tryte n o o n o n ++ tryte o o o o y x ++ tryte o o o o o o, []⟩,
     ⟨[.register, .immediate],
      tryte o o o n o n ++ tryte o o o p o x ++ tryte o o o o o o, [.operand 1]⟩,
     ⟨[.indirect, .immediate],
      tryte o o o n o n ++ tryte o o n p x o ++ tryte o o o o o o, [.operand 1]⟩,
     ⟨[.direct, .register],
      tryte o o o n o n ++ tryte o o n o y o ++ tryte o o o o p o, [.operand 0]⟩,
     ⟨[.direct, .immediate],
      tryte p o o n o n ++ tryte o o n n o o ++ tryte o o o o p o, [.operand 0, .operand 1]⟩]
  | jump =>
    [⟨[.register], tryte n p o o w v ++ tryte o o o o x o ++ tryte o o o o o o, []⟩,
     ⟨[.immediate], tryte o p o o w v ++ tryte o o o p o o ++ tryte o o o o o o, [.operand 0]⟩,
     ⟨[.immediate, .register],
      tryte o p o o w v ++ tryte o o o o y o ++ tryte o o o o o o, [.operand 0]⟩,
     ⟨[.immediate, .immediate],
      tryte p p o o w v ++ tryte o o o n o o ++ tryte o o o o o o, [.operand 0, .operand 1]⟩]
  | restart => [⟨[], tryte n n o n o n ++ tryte p o o o o o ++ tryte o o n o o o, []⟩]

/-- Whether some format of the family has an operand in memory. -/
def allowsMemory (f : Family) : Bool := f.formats.any fun format => format.modes.any Mode.isMemory

def mnemonics (f : Family) : List String := f.variants.map Prod.fst

/-- The variant that a mnemonic in lower case selects. -/
def variant? (f : Family) (name : Text) : Option Variant :=
  (f.variants.find? fun (mnemonic, _) => mnemonic.toList = name).map Prod.snd

/-- The first mnemonic, in alphabetical order, that selects `v`. -/
def mnemonic? (f : Family) (v : Variant) : Option String :=
  (f.variants.find? fun (_, selected) => selected = v).map Prod.fst

def format? (f : Family) (modes : List Mode) : Option Format :=
  f.formats.find? fun format => format.modes = modes

/-- The format whose modes are written as `key`. -/
def formatByKey? (f : Family) (key : Text) : Option Format :=
  f.formats.find? fun format => format.key = key

/-- Whether a name in lower case belongs to the family, as a mnemonic or as a misspelt one. -/
def owns (f : Family) (name : Text) : Bool :=
  match f.naming with
  | .starts part => part.toList.isPrefixOf name
  | .ends part => part.toList.isSuffixOf name
  | .exact => (f.variant? name).isSome

/-- The first family that a name belongs to, and the variant that it selects there, if it is one of
the mnemonics. Case does not matter. -/
def lookup? (mnemonic : Text) : Option (Family × Option Variant) :=
  let name := Text.lower mnemonic
  (all.find? fun f => f.owns name).map fun f => (f, f.variant? name)

end Family

end BalancedTernary
