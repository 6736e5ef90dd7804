import BalancedTernary.Text.Basic

/-!
# Source texts

A source text is read line by line. A comment mark ends a line, white space around the rest does not
count, and a line that holds only a section marker says to which segment the lines after it belong.
-/

namespace BalancedTernary.Assembly

inductive Segment where
  | code
  | data
deriving DecidableEq, Repr

def Segment.text : Segment → Text
  | code => ".code".toList
  | data => ".data".toList

def Segment.ofText? (s : Text) : Option Segment :=
  [code, data].find? fun segment => segment.text = s

structure Config where
  comment : Text
  /-- The address of the first tryte of an image in the machine's memory. -/
  base : Int64
deriving DecidableEq, Repr

namespace Config

def default : Config := ⟨[';'], -364⟩

/-- An empty comment mark stands for the default one. -/
def ofSettings (comment : Text) (base : Int64) : Config :=
  ⟨if comment.isEmpty then default.comment else comment, base⟩

end Config

/-- A line that is neither blank nor a section marker. It has no segment when no section marker
comes before it. -/
structure SourceLine where
  number : Nat
  segment : Option Segment
  text : Text
deriving DecidableEq, Repr

structure Statement where
  line : Nat
  segment : Segment
  text : Text
deriving DecidableEq, Repr

/-- A line without its comment. An empty mark starts no comment. -/
def withoutComment (comment line : Text) : Text :=
  if comment.isEmpty then line else Text.before comment line

namespace SourceLine

/-- The lines from number `n` on, when `segment` is the current segment. -/
def readFrom (comment : Text) (segment : Option Segment) (n : Nat) : List Text → List SourceLine
  | [] => []
  | line :: rest =>
    let text := Text.trim (withoutComment comment line)
    if text.isEmpty then readFrom comment segment (n + 1) rest
    else
      match Segment.ofText? text with
      | some entered => readFrom comment (some entered) (n + 1) rest
      | none => ⟨n, segment, text⟩ :: readFrom comment segment (n + 1) rest

def readAll (comment source : Text) : List SourceLine :=
  readFrom comment none 1 (Text.lines source)

def statement? (l : SourceLine) : Option Statement :=
  l.segment.map fun segment => ⟨l.number, segment, l.text⟩

end SourceLine

/-- The statements of a source text. A line before the first section marker is none. -/
def statements (comment source : Text) : List Statement :=
  (SourceLine.readAll comment source).filterMap SourceLine.statement?

end BalancedTernary.Assembly
