import BalancedTernary.Tryte

/-!
# Words

A word is a row of trytes, the most significant first. Its value as an integer is `Word.value`; the
machine's arithmetic has 64 bits, and `Word.toInt64` is the value in that arithmetic.
-/

namespace BalancedTernary

abbrev Word := List Tryte

namespace Word

/-- Groups trits by six. Trits that do not fill a tryte are dropped. -/
def ofTrits : List Trit → Word
  | a :: b :: c :: d :: e :: f :: rest => ⟨⟨a, b, c⟩, ⟨d, e, f⟩⟩ :: ofTrits rest
  | _ => []

/-- Groups triads by two. A triad left over is dropped. -/
def ofTriads : List Triad → Word
  | a :: b :: rest => ⟨a, b⟩ :: ofTriads rest
  | _ => []

def trits (w : Word) : List Trit := w.flatMap Tryte.trits

def value (w : Word) : Int := Trit.value w.trits

def toInt64 (w : Word) : Int64 := w.foldl (fun v t => v * 729 + Int64.ofInt t.toInt) 0

/-- The trytes, each as six glyphs, with one space between them. -/
def text (w : Word) : Text := Text.join [' '] (w.map Tryte.text)

/-- The glyphs of all trits. -/
def glyphs (w : Word) : Text := w.trits.map Trit.glyph

/-- The digits in base 27, two for each tryte. -/
def symbols (w : Word) : Text := w.flatMap Tryte.symbols

/-- The trytes in rows of `n`, the last of which may be shorter. There is always a first row. -/
def rows (n : Nat) (w : Word) : List Word :=
  if n = 0 ∨ w.length ≤ n then [w] else w.take n :: rows n (w.drop n)
termination_by w.length
decreasing_by simp only [List.length_drop]; omega

end Word

end BalancedTernary
