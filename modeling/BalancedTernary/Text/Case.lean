import BalancedTernary.Text.Basic

/-!
# Letter case of keywords

Mnemonics, register names and data types are ASCII and are compared without regard to case. The maps
below are simple case mapping on the characters whose image is ASCII; they leave every other
character alone, which no comparison with an ASCII keyword can tell from mapping it elsewhere.
-/

namespace BalancedTernary.Text

/-- Besides the capitals, the dotted capital I and the Kelvin sign have ASCII lower-case forms. -/
def lowerChar (c : Char) : Char :=
  if c.isUpper then c.toLower
  else if c = '\u0130' then 'i'
  else if c = '\u212A' then 'k'
  else c

/-- Besides the small letters, the dotless i and the long s have ASCII upper-case forms. -/
def upperChar (c : Char) : Char :=
  if c.isLower then c.toUpper
  else if c = '\u0131' then 'I'
  else if c = '\u017F' then 'S'
  else c

def lower (s : Text) : Text := s.map lowerChar

end BalancedTernary.Text
