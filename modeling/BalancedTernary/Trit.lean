/-!
# Trits

The digits of balanced ternary notation: a trit counts minus one, nothing or one at its place.
`expand` writes a number in a given count of trits and `value` reads trits back, both with the most
significant trit first.
-/

namespace BalancedTernary

inductive Trit where
  | neg
  | zero
  | pos
deriving DecidableEq, Repr

instance : Inhabited Trit := ⟨.zero⟩

namespace Trit

def toInt : Trit → Int
  | neg => -1
  | zero => 0
  | pos => 1

def ofInt? (v : Int) : Option Trit :=
  if v = -1 then some neg else if v = 0 then some zero else if v = 1 then some pos else none

def glyph : Trit → Char
  | neg => 'λ'
  | zero => '0'
  | pos => '1'

def ofGlyph? (c : Char) : Option Trit :=
  if c = 'λ' then some neg else if c = '0' then some zero else if c = '1' then some pos else none

/-- The trit that differs from `v` by a multiple of three. -/
def residue (v : Int) : Trit :=
  if v % 3 = 0 then zero else if v % 3 = 1 then pos else neg

/-- The last `n` trits of `v`. -/
def expand : Nat → Int → List Trit
  | 0, _ => []
  | n + 1, v => expand n ((v - (residue v).toInt) / 3) ++ [residue v]

def value (ts : List Trit) : Int := ts.foldl (fun v t => 3 * v + t.toInt) 0

end Trit

end BalancedTernary
