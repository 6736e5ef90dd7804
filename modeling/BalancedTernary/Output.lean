import BalancedTernary.Assembly.Listing

/-!
# Output in parts

A text is handed over in parts, and whoever takes it may refuse a part. Then the rest is not
offered.
-/

namespace BalancedTernary

/-- The text that was taken, and whether that was all of it. -/
structure Delivery where
  text : Text
  complete : Bool
deriving DecidableEq, Repr

/-- Hands over `parts` to someone who takes at most `limit` of them. -/
def deliver (limit : Option Nat) (parts : List Text) : Delivery :=
  match limit with
  | none => ⟨parts.flatten, true⟩
  | some n => ⟨(parts.take n).flatten, parts.length ≤ n⟩

namespace Assembly.Program

/-- The image goes over in one part, even when it is empty. -/
def deliverImage (p : Program) (limit : Option Nat) : Delivery := deliver limit [p.output]

/-- A listing goes over line by line. -/
def listingParts (p : Program) (width : Int64) : List Text :=
  (Listing.lines width p).map fun line => line ++ ['\n']

def deliverListing (p : Program) (width : Int64) (limit : Option Nat) : Delivery :=
  deliver limit (p.listingParts width)

end Assembly.Program

end BalancedTernary
