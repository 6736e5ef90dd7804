import BalancedTernary.FaultKind
import BalancedTernary.Text.Quoted
import BalancedTernary.Width

/-! # Faults of numerals -/

namespace BalancedTernary.Numeral

inductive Fault where
  /-- A tryte is written with six glyphs. -/
  | tryteLength (tryte : Text)
  | tryteGlyph (tryte : Text) (glyph : Char)
  | integerTooBig (value : Int64) (width : Width)
  | notInteger (literal : Text)
  | literalTooBig (literal : Text) (width : Width)
  | noDigits (literal : Text)
  | tooManyTrits (literal : Text) (width : Width)
  | tritGlyph (literal : Text) (glyph : Char)
  | tooManyTriads (literal : Text) (width : Width)
  | triadSymbol (literal : Text)
deriving DecidableEq, Repr

namespace Fault

def kind : Fault → FaultKind
  | tryteLength _ => .invalidNumeral
  | tryteGlyph _ _ => .invalidNumeral
  | integerTooBig _ _ => .valueOutOfRange
  | notInteger _ => .invalidNumeral
  | literalTooBig _ _ => .valueOutOfRange
  | noDigits _ => .invalidNumeral
  | tooManyTrits _ _ => .valueOutOfRange
  | tritGlyph _ _ => .invalidNumeral
  | tooManyTriads _ _ => .valueOutOfRange
  | triadSymbol _ => .invalidNumeral

def circumstances : Fault → String
  | tryteLength tryte => s!"tryte {Text.quoted tryte} must have 6 trits"
  | tryteGlyph tryte glyph => s!"tryte {Text.quoted tryte}: symbol {Text.quotedChar glyph}"
  | integerTooBig value width =>
    s!"{value.toInt} does not fit {width.name} (±{width.max.toInt})"
  | notInteger literal => Text.quoted literal
  | literalTooBig literal width =>
    s!"value {String.ofList literal} too big for {width.name} (±{width.max.toInt})"
  | noDigits literal => s!"{Text.quoted literal} has no digits"
  | tooManyTrits literal width =>
    s!"value {Text.quoted literal} too big for {width.name} (max {width.trits.toInt} trits)"
  | tritGlyph literal glyph => s!"{Text.quoted literal}: symbol {Text.quotedChar glyph}"
  | tooManyTriads literal width =>
    s!"value {Text.quoted literal} too big for {width.name} (max {width.triads.toInt} sep digits)"
  | triadSymbol literal => s!"invalid sep value {Text.quoted literal}"

def message (f : Fault) : String := s!"{f.circumstances}: {f.kind.text}"

end Fault

end BalancedTernary.Numeral
