import BalancedTernary.Text.Case
import BalancedTernary.Trit

/-!
# Triads and trytes

Three trits are a triad, one digit in base 27. Two triads are a tryte, the smallest unit that has an
address. Trits and triads stand with the most significant first.
-/

namespace BalancedTernary

structure Triad where
  high : Trit
  mid : Trit
  low : Trit
deriving DecidableEq, Repr, Inhabited

namespace Triad

def zero : Triad := ⟨.zero, .zero, .zero⟩

def trits (t : Triad) : List Trit := [t.high, t.mid, t.low]

def toInt (t : Triad) : Int := Trit.value t.trits

def ofInt (v : Int) : Triad :=
  match Trit.expand 3 v with
  | [a, b, c] => ⟨a, b, c⟩
  | _ => zero

/-- The digits in base 27, from minus thirteen to thirteen. -/
def symbols : Text := "FGHKNPRSTUVYZ0123456789ABCD".toList

def symbol (t : Triad) : Char := symbols.getD (t.toInt + 13).toNat '0'

/-- The triad that a digit stands for. The case of a letter does not matter. -/
def ofSymbol? (c : Char) : Option Triad :=
  (symbols.idxOf? (Text.upperChar c)).map fun i => ofInt (i - 13)

end Triad

structure Tryte where
  high : Triad
  low : Triad
deriving DecidableEq, Repr, Inhabited

namespace Tryte

def zero : Tryte := ⟨.zero, .zero⟩

def isZero (t : Tryte) : Bool := t = zero

def trits (t : Tryte) : List Trit := t.high.trits ++ t.low.trits

def toInt (t : Tryte) : Int := Trit.value t.trits

def text (t : Tryte) : Text := t.trits.map Trit.glyph

def symbols (t : Tryte) : Text := [t.high.symbol, t.low.symbol]

end Tryte

end BalancedTernary
