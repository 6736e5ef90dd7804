import BalancedTernary.Numeral.Basic

/-!
# Images as text

An image is the word that a machine loads. As text it is its trytes with white space between them.
-/

namespace BalancedTernary.Image

inductive Fault where
  | tryte (index : Nat) (fault : Numeral.Fault)
  | itemTooLong
deriving DecidableEq, Repr

def Fault.message : Fault → String
  | tryte index fault => s!"tryte {index}: {fault.message}"
  | itemTooLong => "read image: bufio.Scanner: token too long"

/-- An item of this many bytes or more is not looked at. -/
def itemLimit : Nat := 65536

/-- Reads the items from number `index` on. -/
def readFrom (index : Nat) : List Text → Except Fault Word
  | [] => .ok []
  | item :: rest =>
    if itemLimit ≤ Text.byteSize item then .error .itemTooLong
    else
      match Tryte.parse item with
      | .error fault => .error (.tryte index fault)
      | .ok t => (readFrom (index + 1) rest).map (t :: ·)

def read (s : Text) : Except Fault Word := readFrom 0 (Text.words s)

end BalancedTernary.Image
