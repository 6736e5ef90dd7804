import BalancedTernary.Tryte

/-! # Registers: three of them, each addressed by one trit -/

namespace BalancedTernary

abbrev Register := Trit

namespace Register

def name : Register → String
  | .neg => "rz"
  | .zero => "r0"
  | .pos => "r1"

/-- The register of the given name. Case does not matter. -/
def ofName? (s : Text) : Option Register :=
  [Trit.neg, Trit.zero, Trit.pos].find? fun r => (name r).toList = Text.lower s

end Register

end BalancedTernary
