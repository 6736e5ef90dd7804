import BalancedTernary.Assembly.Fault

/-! # Symbol tables: labels and what they stand for, each label defined once -/

namespace BalancedTernary.Assembly

structure SymbolTable (α : Type) where
  entries : List (Label × α)
deriving Repr

namespace SymbolTable

variable {α : Type}

def empty : SymbolTable α := ⟨[]⟩

def lookup? (table : SymbolTable α) (label : Label) : Option α := table.entries.lookup label

def define (table : SymbolTable α) (label : Label) (value : α) : Except Fault (SymbolTable α) :=
  if (table.lookup? label).isSome then .error (.duplicateLabel label)
  else .ok ⟨(label, value) :: table.entries⟩

def size (table : SymbolTable α) : Nat := table.entries.length

/-- The labels in the order of their code points. -/
def labels (table : SymbolTable α) : List Label :=
  (table.entries.map Prod.fst).mergeSort Text.le

end SymbolTable

end BalancedTernary.Assembly
