import BalancedTernary.Assembly.Program

/-!
# Events

What an assembly reports while it goes on: lines that it skips, labels that it finds, and the ends
of its stages. `trace` gives the events of an assembly in order, up to the fault that ends it.
-/

namespace BalancedTernary.Assembly

inductive Event where
  | lineSkipped (line : Nat) (text : Text)
  | labelDefined (line : Nat) (label : Label)
  | sourceRead (fragments labels : Nat)
  | addressesAssigned (size : Nat)
  | referencesResolved
deriving DecidableEq, Repr

namespace Event

inductive Level where
  | debug
  | warning
deriving DecidableEq, Repr

inductive Value where
  | number (n : Nat)
  | text (s : Text)
deriving DecidableEq, Repr

def level : Event → Level
  | lineSkipped _ _ => .warning
  | _ => .debug

def message : Event → String
  | lineSkipped _ text => s!"statement outside any section skipped: {Text.quoted text}"
  | labelDefined _ _ => "label defined"
  | sourceRead _ _ => "parsed source"
  | addressesAssigned _ => "pass 1: addresses assigned"
  | referencesResolved => "pass 2: references resolved"

/-- The details, in the order of their names. -/
def details : Event → List (String × Value)
  | lineSkipped line _ => [("line", .number line)]
  | labelDefined line label => [("label", .text label), ("line", .number line)]
  | sourceRead fragments labels => [("labels", .number labels), ("units", .number fragments)]
  | addressesAssigned size => [("size", .number size)]
  | referencesResolved => []

end Event

/-- A line without a segment is skipped. -/
def SourceLine.event? (l : SourceLine) : Option Event :=
  match l.segment with
  | none => some (.lineSkipped l.number l.text)
  | some _ => none

/-- The label that a statement adds to the symbols. A fault in its body does not matter here. -/
def Statement.declared? (symbols : SymbolTable Nat) (position : Nat) (s : Statement) :
    Option Label :=
  match s.split with
  | .ok (some label, _) => if (symbols.define label position).isOk then some label else none
  | _ => none

/-- The labels defined from `position` on, until a statement has a fault. -/
def labelEvents (symbols : SymbolTable Nat) (position : Nat) : List Statement → List Event
  | [] => []
  | s :: rest =>
    let here := (s.declared? symbols position).toList.map (Event.labelDefined s.line)
    match Fragment.read symbols position s with
    | .error _ => here
    | .ok (symbols, _) => here ++ labelEvents symbols (position + 1) rest

/-- The ends of the stages that an assembly reaches. -/
def stageEvents (base : Int64) (statements : List Statement) : List Event :=
  match Fragment.readAll statements with
  | .error _ => []
  | .ok (table, fragments) =>
    let size := (fragments.flatMap Fragment.trytes).length
    [.sourceRead fragments.length table.size, .addressesAssigned size] ++
      (if (link base table fragments).isOk then [.referencesResolved] else [])

def trace (config : Config) (source : Text) : List Event :=
  let lines := SourceLine.readAll config.comment source
  let found := lines.filterMap SourceLine.statement?
  lines.filterMap SourceLine.event? ++ labelEvents .empty 0 found ++ stageEvents config.base found

end BalancedTernary.Assembly
