import BalancedTernary.Text.Basic

/-!
# Whole numbers as text

Decimal writing of integers, and reading of signed numbers into 64 bits. Reading goes from left to
right over an unsigned 64-bit value: a bad digit is `malformed`, and the first digit that takes the
value past 64 bits is `overflow`, whatever follows it.
-/

namespace BalancedTernary.Text

def natural (n : Nat) : Text := Nat.toDigits 10 n

def integer (v : Int) : Text :=
  if v < 0 then '-' :: natural v.natAbs else natural v.natAbs

/-- Like `integer`, with a sign in front of the non-negative numbers too. -/
def signedInteger (v : Int) : Text :=
  if v < 0 then integer v else '+' :: integer v

/-- The number of unsigned numbers in 64 bits. -/
def unsignedLimit : Nat := 18446744073709551616

/-- The number of negative numbers in 64 bits. -/
def signedLimit : Nat := 9223372036854775808

inductive ReadFault where
  | malformed
  | overflow
deriving DecidableEq, Repr

/-- The value of an ASCII digit or letter as a digit in `base`. -/
def digit? (base : Nat) (c : Char) : Option Nat :=
  let value? :=
    if c.isDigit then some (c.toNat - '0'.toNat)
    else if c.isLower then some (c.toNat - 'a'.toNat + 10)
    else if c.isUpper then some (c.toNat - 'A'.toNat + 10)
    else none
  value?.filter (· < base)

def readDigits (base : Nat) : Nat → Text → Except ReadFault Nat
  | value, [] => .ok value
  | value, c :: s =>
    match digit? base c with
    | none => .error .malformed
    | some d =>
      if unsignedLimit ≤ value * base + d then .error .overflow
      else readDigits base (value * base + d) s

/-- The signed number with the given magnitude, if 64 bits hold it. -/
def ofMagnitude (negative : Bool) (n : Nat) : Except ReadFault Int64 :=
  if negative then
    if n ≤ signedLimit then .ok (Int64.ofInt (-n)) else .error .overflow
  else
    if n < signedLimit then .ok (Int64.ofInt n) else .error .overflow

/-- One optional sign, then a magnitude read by `magnitude`. -/
def readSigned (magnitude : Text → Except ReadFault Nat) : Text → Except ReadFault Int64
  | '-' :: s => magnitude s >>= ofMagnitude true
  | '+' :: s => magnitude s >>= ofMagnitude false
  | s => magnitude s >>= ofMagnitude false

def readNatural (s : Text) : Except ReadFault Nat :=
  if s.isEmpty then .error .malformed else readDigits 10 0 s

def readDecimal (s : Text) : Except ReadFault Int64 := readSigned readNatural s

/-- The base that a number is written in and its digits: a prefix of zero and a letter stands for
base 2, 8 or 16, and a leading zero alone for base 8. -/
def splitBase (s : Text) : Nat × Text :=
  match s with
  | '0' :: letter :: d :: rest =>
    if letter = 'b' || letter = 'B' then (2, d :: rest)
    else if letter = 'o' || letter = 'O' then (8, d :: rest)
    else if letter = 'x' || letter = 'X' then (16, d :: rest)
    else (8, letter :: d :: rest)
  | '0' :: rest => (8, rest)
  | _ => (10, s)

/-- Whether each underscore stands directly between two digits. -/
def separatesDigits (afterDigit : Bool) : Text → Bool
  | [] => afterDigit
  | '_' :: s => afterDigit && separatesDigits false s
  | _ :: s => separatesDigits true s

/-- A number with an optional prefix for its base, and with underscores between digits. -/
def readPrefixedNatural (s : Text) : Except ReadFault Nat :=
  if s.isEmpty then .error .malformed
  else
    let (base, digits) := splitBase s
    match readDigits base 0 (digits.filter (· != '_')) with
    | .error fault => .error fault
    | .ok n =>
      if s.contains '_' && !separatesDigits (base != 10) digits then .error .malformed else .ok n

def readPrefixed (s : Text) : Except ReadFault Int64 := readSigned readPrefixedNatural s

end BalancedTernary.Text
