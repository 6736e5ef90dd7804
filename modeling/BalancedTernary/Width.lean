import BalancedTernary.Text.Case
import BalancedTernary.Text.Integer

/-!
# Widths

A width is a count of trytes. Four widths have names; the numeral notations accept every count that
64 bits hold, and the sizes derived from it are computed in 64 bits and wrap around.
-/

namespace BalancedTernary

structure Width where
  trytes : Int64
deriving DecidableEq, Repr

namespace Width

def tryte : Width := ⟨1⟩
def pair : Width := ⟨2⟩
def triple : Width := ⟨3⟩
def quad : Width := ⟨4⟩

def name (w : Width) : String :=
  if w = tryte then "tryte"
  else if w = pair then "pair"
  else if w = triple then "triple"
  else if w = quad then "quad"
  else s!"width({w.trytes.toInt})"

def names : List (String × Width) :=
  [("tryte", tryte), ("dt", tryte), ("pair", pair), ("dp", pair),
   ("triple", triple), ("d3", triple), ("quad", quad), ("dq", quad)]

/-- The width that a data type stands for. Case does not matter. -/
def ofName? (s : Text) : Option Width :=
  (names.find? fun (name, _) => name.toList = Text.lower s).map Prod.snd

/-- The number of trits. -/
def trits (w : Width) : Int64 := w.trytes * 6

/-- The number of digits in base 27. -/
def triads (w : Width) : Int64 := w.trytes * 2

/-- Three to the power `n`, and one when `n` is negative. -/
def powThree (n : Int64) : Int64 := Nat.repeat (· * 3) n.toInt.toNat 1

/-- The largest value that fits; its negation is the smallest. -/
def max (w : Width) : Int64 := (powThree w.trits - 1) / 2

end Width

end BalancedTernary
