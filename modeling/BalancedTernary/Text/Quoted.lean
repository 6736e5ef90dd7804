import BalancedTernary.Text.Basic
import BalancedTernary.Text.Printable

/-!
# Quoted texts and characters

In messages a text stands between double quotes and a character between single quotes. The quote in
use and the backslash are escaped by a backslash, the usual control characters by their letter, and
what is not printable by its code point in hexadecimal.
-/

namespace BalancedTernary.Text

def hex (width n : Nat) : Text := padLeft '0' width (Nat.toDigits 16 n)

def backslash : Char := '\x5c'

def escapeUnprintable (n : Nat) : Text :=
  match n with
  | 0x07 => [backslash, 'a']
  | 0x08 => [backslash, 'b']
  | 0x09 => [backslash, 't']
  | 0x0A => [backslash, 'n']
  | 0x0B => [backslash, 'v']
  | 0x0C => [backslash, 'f']
  | 0x0D => [backslash, 'r']
  | _ =>
    if n < 0x20 || n == 0x7F then backslash :: 'x' :: hex 2 n
    else if n < 0x10000 then backslash :: 'u' :: hex 4 n
    else backslash :: 'U' :: hex 8 n

def escape (mark c : Char) : Text :=
  if c = mark || c = backslash then [backslash, c]
  else if isPrintable c then [c]
  else escapeUnprintable c.toNat

def quotedWith (mark : Char) (s : Text) : Text := mark :: s.flatMap (escape mark) ++ [mark]

def quoted (s : Text) : String := String.ofList (quotedWith '\x22' s)

def quotedChar (c : Char) : String := String.ofList (quotedWith '\x27' [c])

end BalancedTernary.Text
