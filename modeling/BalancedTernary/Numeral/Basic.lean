import BalancedTernary.Numeral.Fault
import BalancedTernary.Word

/-!
# Numerals

Whole numbers of a given width in three notations: signed decimal, trits after `0t`, and digits in
base 27 after `0x`. Missing leading digits are zero.
-/

namespace BalancedTernary

/-- Reads six glyphs. -/
def Tryte.parse (s : Text) : Except Numeral.Fault Tryte :=
  match s with
  | [a, b, c, d, e, f] => do
    let a ← trit a
    let b ← trit b
    let c ← trit c
    let d ← trit d
    let e ← trit e
    let f ← trit f
    return ⟨⟨a, b, c⟩, ⟨d, e, f⟩⟩
  | _ => .error (.tryteLength s)
where
  trit (c : Char) : Except Numeral.Fault Trit :=
    match Trit.ofGlyph? c with
    | some t => .ok t
    | none => .error (.tryteGlyph s c)

/-- The word of width `w` with the value `v`, if there is one. -/
def Word.ofInt (v : Int64) (w : Width) : Except Numeral.Fault Word :=
  if v > w.max ∨ v < -w.max then .error (.integerTooBig v w)
  else .ok (ofTrits (Trit.expand w.trits.toInt.toNat v.toInt))

namespace Numeral

/-- `digits` with `zero` in front as often as it takes to have `count` of them. -/
def extend {α : Type} (zero : α) (count : Nat) (digits : List α) : List α :=
  List.replicate (count - digits.length) zero ++ digits

/-- The digits of `body`, or its first character that is none. -/
def readAll {α : Type} (digit? : Char → Option α) : Text → Except Char (List α)
  | [] => .ok []
  | c :: s =>
    match digit? c with
    | none => .error c
    | some d => (readAll digit? s).map (d :: ·)

def encodeTrits (literal body : Text) (w : Width) : Except Fault Word :=
  if body.isEmpty then .error (.noDigits literal)
  else if w.trits.toInt < body.length then .error (.tooManyTrits literal w)
  else
    match readAll Trit.ofGlyph? body with
    | .error c => .error (.tritGlyph literal c)
    | .ok trits => .ok (.ofTrits (extend .zero w.trits.toInt.toNat trits))

def encodeTriads (literal body : Text) (w : Width) : Except Fault Word :=
  if body.isEmpty then .error (.noDigits literal)
  else if w.triads.toInt < body.length then .error (.tooManyTriads literal w)
  else
    match readAll Triad.ofSymbol? body with
    | .error _ => .error (.triadSymbol literal)
    | .ok triads => .ok (.ofTriads (extend .zero w.triads.toInt.toNat triads))

def encodeDecimal (literal : Text) (w : Width) : Except Fault Word :=
  match Text.readDecimal literal with
  | .error .malformed => .error (.notInteger literal)
  | .error .overflow => .error (.literalTooBig literal w)
  | .ok v =>
    match Word.ofInt v w with
    | .error _ => .error (.literalTooBig literal w)
    | .ok word => .ok word

/-- The word of width `w` that `literal` denotes. -/
def encode (literal : Text) (w : Width) : Except Fault Word :=
  match literal with
  | '0' :: 't' :: body => encodeTrits literal body w
  | '0' :: 'x' :: body => encodeTriads literal body w
  | _ => encodeDecimal literal w

end Numeral

end BalancedTernary
