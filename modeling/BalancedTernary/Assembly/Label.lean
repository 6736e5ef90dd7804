import BalancedTernary.Text.Basic
import BalancedTernary.Text.DecimalDigit
import BalancedTernary.Text.Letter

/-! # Labels -/

namespace BalancedTernary

abbrev Label := Text

namespace Label

/-- A letter can start a name, except the glyph of the negative trit. -/
def isFirst (c : Char) : Bool := Text.isLetter c && c != 'λ'

def isNext (c : Char) : Bool := Text.isLetter c || Text.isDecimalDigit c || c == '_'

def isName : Text → Bool
  | [] => false
  | c :: rest => isFirst c && rest.all isNext

end Label

end BalancedTernary
