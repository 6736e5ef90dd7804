/-!
# Texts

A text is the list of its characters. Reading and writing are functions on such lists; strings
appear only in messages and at the edge of the program.
-/

namespace BalancedTernary

abbrev Text := List Char

namespace Text

/-- White space: the characters that separate tokens and are trimmed from lines. -/
def isBlank (c : Char) : Bool :=
  let n := c.toNat
  (0x09 ≤ n && n ≤ 0x0D) || n == 0x20 || n == 0x85 || n == 0xA0 || n == 0x1680 ||
    (0x2000 ≤ n && n ≤ 0x200A) || n == 0x2028 || n == 0x2029 || n == 0x202F || n == 0x205F ||
    n == 0x3000

/-- `s` without the characters of class `p` at its end. -/
def trimEndBy (p : Char → Bool) (s : Text) : Text := (s.reverse.dropWhile p).reverse

/-- `s` without white space at either end. -/
def trim (s : Text) : Text := trimEndBy isBlank (s.dropWhile isBlank)

/-- The maximal non-empty runs of characters outside the class `sep`, in order. -/
def fields (sep : Char → Bool) (s : Text) : List Text :=
  (s.splitOnP sep).filter (fun f => !f.isEmpty)

/-- The maximal runs of characters that are not white space. -/
def words (s : Text) : List Text := fields isBlank s

/-- What stands before and after the first occurrence of `mark`, if there is one. -/
def cut? (mark : Text) : Text → Option (Text × Text)
  | [] => if mark.isEmpty then some ([], []) else none
  | c :: s =>
    if mark.isPrefixOf (c :: s) then some ([], (c :: s).drop mark.length)
    else (cut? mark s).map fun (before, after) => (c :: before, after)

/-- What stands before the first occurrence of `mark`: all of `s` when there is none. -/
def before (mark s : Text) : Text :=
  match cut? mark s with
  | some (head, _) => head
  | none => s

/-- A carriage return directly before a line feed belongs to the line ending. -/
def unifyLineEnds : Text → Text
  | '\r' :: '\n' :: s => '\n' :: unifyLineEnds s
  | c :: s => c :: unifyLineEnds s
  | [] => []

/-- The lines of `s`, without their endings. -/
def lines (s : Text) : List Text := (unifyLineEnds s).splitOn '\n'

/-- `s` filled up with spaces on the right to `width` characters; a longer text is unchanged. -/
def padRight (width : Nat) (s : Text) : Text := s ++ List.replicate (width - s.length) ' '

/-- `s` filled up with `fill` on the left to `width` characters; a longer text is unchanged. -/
def padLeft (fill : Char) (width : Nat) (s : Text) : Text :=
  List.replicate (width - s.length) fill ++ s

/-- The number of bytes of the UTF-8 encoding of `s`. -/
def byteSize (s : Text) : Nat := s.foldl (fun n c => n + c.utf8Size) 0

/-- Order by code points, in which a text comes before every longer one that starts with it. -/
def le : Text → Text → Bool
  | [], _ => true
  | _ :: _, [] => false
  | a :: s, b :: t => if a = b then le s t else decide (a.toNat < b.toNat)

/-- The texts `parts` with `between` after each but the last. -/
def join (between : Text) (parts : List Text) : Text := between.intercalate parts

end Text

end BalancedTernary
