import BalancedTernary.Assembly.Operand
import BalancedTernary.Assembly.Relocatable

/-!
# Data

A data directive is a type, which gives the width, and values: numerals of that width, or labels for
their addresses.
-/

namespace BalancedTernary.Assembly.Data

/-- The trytes of one value of the directive `body`. -/
def encodeValue (body : Text) (w : Width) (value : Text) : Except Fault (List Relocatable) :=
  if (Register.ofName? value).isSome then .error (.registerAsData body value)
  else if Label.isName value then
    .ok (List.replicate (w.trytes.toInt.toNat - 1) (.tryte .zero) ++ [.address value])
  else
    match Numeral.encode value w with
    | .error fault => .error (.numeral fault)
    | .ok word => .ok (word.map .tryte)

def assemble (body : Text) : Except Fault (List Relocatable) :=
  match Text.fields isSeparator body with
  | [] => .error .emptyData
  | type :: values =>
    match Width.ofName? type with
    | none => .error (.dataType type)
    | some w =>
      if values.isEmpty then .error (.noValues w)
      else (values.mapM (encodeValue body w)).map List.flatten

end BalancedTernary.Assembly.Data
