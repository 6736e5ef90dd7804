import BalancedTernary.Assembly.Layout

/-!
# Programs

A program is a linked source text. `assemble` makes one; its first fault ends the work.
-/

namespace BalancedTernary.Assembly

structure Program where
  /-- In the order of the source text. -/
  fragments : List LinkedFragment
  table : SymbolTable Nat
  base : Int64

/-- A label with its address and the line that defines it. -/
structure Symbol where
  name : Label
  address : Nat
  line : Nat
deriving DecidableEq, Repr

def link (base : Int64) (table : SymbolTable Nat) (fragments : List Fragment) :
    Except LineFault Program := do
  let placed := place fragments
  let linked ← placed.mapM (PlacedFragment.link ⟨table, placed⟩ base)
  return ⟨linked, table, base⟩

def assemble (config : Config) (source : Text) : Except LineFault Program := do
  let (table, fragments) ← Fragment.readAll (statements config.comment source)
  link config.base table fragments

namespace Program

/-- The fragments in the order of their addresses. -/
def inOrder (p : Program) : List LinkedFragment :=
  p.fragments.filter (·.isIn .code) ++ p.fragments.filter (·.isIn .data)

def image (p : Program) : Word := p.inOrder.flatMap (·.code)

/-- The number of trytes. -/
def size (p : Program) : Nat := (p.fragments.flatMap (·.trytes)).length

def symbol? (p : Program) (label : Label) : Option Symbol :=
  (p.table.lookup? label).bind fun position =>
    p.fragments[position]?.map fun f => ⟨label, f.address, f.line⟩

def address? (p : Program) (label : Label) : Option Nat := (p.symbol? label).map (·.address)

/-- All symbols, in the order of their names. -/
def symbols (p : Program) : List Symbol := p.table.labels.filterMap p.symbol?

/-- The image as text: the trytes of each fragment on a line of their own. -/
def output (p : Program) : Text := p.inOrder.flatMap fun f => f.code.text ++ ['\n']

end Program

end BalancedTernary.Assembly
