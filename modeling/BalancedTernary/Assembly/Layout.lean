import BalancedTernary.Assembly.Fragment

/-!
# Layout and linking

The fragments of the code segment come first in an image and those of the data segment after them,
both in the order of the source text. With the addresses known, every reference has a value.
-/

namespace BalancedTernary.Assembly

structure PlacedFragment extends Fragment where
  address : Nat
deriving DecidableEq, Repr

structure LinkedFragment extends PlacedFragment where
  code : Word
deriving DecidableEq, Repr

/-- Whether a fragment belongs to the given segment. -/
def Fragment.isIn (segment : Segment) (f : Fragment) : Bool := f.segment = segment

/-- The number of trytes in a segment. -/
def segmentSize (segment : Segment) (fragments : List Fragment) : Nat :=
  ((fragments.filter (Fragment.isIn segment)).flatMap Fragment.trytes).length

/-- Gives each fragment the next free address of its segment. -/
def placeFrom (codeAt dataAt : Nat) : List Fragment → List PlacedFragment
  | [] => []
  | f :: rest =>
    match f.segment with
    | .code => ⟨f, codeAt⟩ :: placeFrom (codeAt + f.length) dataAt rest
    | .data => ⟨f, dataAt⟩ :: placeFrom codeAt (dataAt + f.length) rest

def place (fragments : List Fragment) : List PlacedFragment :=
  placeFrom 0 (segmentSize .code fragments) fragments

/-- What references are resolved against. -/
structure Symbols where
  table : SymbolTable Nat
  fragments : List PlacedFragment

def Symbols.address? (s : Symbols) (label : Label) : Option Nat :=
  (s.table.lookup? label).bind fun position => s.fragments[position]?.map (·.address)

/-- The tryte with the value `v` of a reference to `label`. -/
def referenceTryte (label : Label) (v : Int64) : Except Fault Tryte :=
  match Word.ofInt v .tryte with
  | .error fault => .error (.reference label fault)
  | .ok word => .ok (word.headD .zero)

namespace PlacedFragment

/-- The address after the last tryte. -/
def stop (f : PlacedFragment) : Nat := f.address + f.length

def resolve (symbols : Symbols) (base : Int64) (f : PlacedFragment) :
    Relocatable → Except Fault Tryte
  | .tryte t => .ok t
  | .address label =>
    match symbols.address? label with
    | none => .error (.undefinedLabel label)
    | some target => referenceTryte label (Int64.ofNat target + base)
  | .displacement label =>
    match symbols.address? label with
    | none => .error (.undefinedLabel label)
    | some target => referenceTryte label (Int64.ofNat target - Int64.ofNat f.stop)

def link (symbols : Symbols) (base : Int64) (f : PlacedFragment) :
    Except LineFault LinkedFragment :=
  match f.trytes.mapM (f.resolve symbols base) with
  | .error fault => .error ⟨f.line, fault⟩
  | .ok code => .ok ⟨f, code⟩

end PlacedFragment

end BalancedTernary.Assembly
