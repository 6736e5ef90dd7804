import BalancedTernary.Assembly.Program

/-!
# Listings

A listing shows each fragment with its address, its address in the machine's memory in base 27, its
trytes wrapped to a given number of columns, and its source text.
-/

namespace BalancedTernary.Assembly.Listing

/-- The columns in front of the trytes. -/
def margin : Nat := 13

/-- The columns of a tryte with the space after it. -/
def tryteColumns : Nat := 7

/-- How many trytes go on a line of `width` columns: at least one, and with a share of two columns
for the source text. -/
def perLine (width : Int64) : Nat :=
  let count := (width - 15) / 7
  if count < 1 then 1 else count.toInt.toNat

/-- A column of up to a million characters is filled up with spaces; a wider one is refused, and a
note stands in front of the text. -/
def column (width : Nat) (s : Text) : Text :=
  if 1000000 < width then "%!(BADWIDTH)".toList ++ s else Text.padRight width s

/-- The address in memory in base 27, or question marks when a pair does not hold it. -/
def machineAddress (base : Int64) (address : Nat) : Text :=
  match Word.ofInt (Int64.ofNat address + base) .pair with
  | .ok word => word.symbols
  | .error _ => List.replicate 4 '?'

def sourceText (f : LinkedFragment) : Text :=
  match f.label with
  | some label => label ++ [':', ' '] ++ f.source
  | none => f.source

def firstLine (base : Int64) (n : Nat) (f : LinkedFragment) (row : Word) : Text :=
  Text.padLeft ' ' 5 (Text.natural f.address) ++ [' ', ' '] ++ machineAddress base f.address ++
    [' ', ' '] ++ column (n * tryteColumns - 1) row.text ++ [' ', ' ', ';', ' '] ++ sourceText f

def nextLine (row : Word) : Text := List.replicate margin ' ' ++ row.text

def fragmentLines (base : Int64) (n : Nat) (f : LinkedFragment) : List Text :=
  match f.code.rows n with
  | [] => []
  | first :: rest => firstLine base n f first :: rest.map nextLine

/-- The lines of the listing of a program, without spaces at their ends. -/
def lines (width : Int64) (p : Program) : List Text :=
  let n := perLine width
  (p.inOrder.flatMap (fragmentLines p.base n)).map (Text.trimEndBy (· == ' '))

end BalancedTernary.Assembly.Listing
