import BalancedTernary.Disassembly.Decoded

/-!
# Flow of control

Which addresses of an image hold instructions that execution can reach from its first tryte.
-/

namespace BalancedTernary.Disassembly

/-- What decodes at each address from `address` on. -/
def sweep (address : Nat) : Word → List (Option Decoded)
  | [] => []
  | t :: rest => decode? address (t :: rest) :: sweep (address + 1) rest

/-- One more mark leaves one address less to mark. -/
theorem count_false_set_lt {reached : Array Bool} {address : Nat} (h : address < reached.size)
    (hr : reached[address] = false) :
    (reached.set address true).count false < reached.count false := by
  have hpos : 0 < reached.count false := Array.count_pos_iff.2 (hr ▸ Array.getElem_mem h)
  have hset : (reached.set address true).count false = reached.count false - 1 := by
    rw [Array.count_set h, hr]
    rfl
  omega

/-- Marks in `reached` every address that can be reached from `pending` and the addresses already
marked. An address without an instruction is not marked. -/
def explore (successors : Nat → Option (List Nat)) (reached : Array Bool) (pending : List Nat) :
    Array Bool :=
  match pending with
  | [] => reached
  | address :: pending =>
    if h : address < reached.size then
      if hr : reached[address] = false then
        match successors address with
        | some next => explore successors (reached.set address true) (next ++ pending)
        | none => explore successors reached pending
      else explore successors reached pending
    else explore successors reached pending
termination_by (reached.count false, pending.length)
decreasing_by
  · exact Prod.Lex.left _ _ (count_false_set_lt h hr)
  · exact Prod.Lex.right _ (Nat.lt_succ_self _)
  · exact Prod.Lex.right _ (Nat.lt_succ_self _)
  · exact Prod.Lex.right _ (Nat.lt_succ_self _)

/-- The instructions of an image, by address. -/
def decoded (image : Word) : Array (Option Decoded) := (sweep 0 image).toArray

/-- The addresses at which execution may continue after the instruction at `address`; `none` when
there is no instruction. -/
def successors? (decoded : Array (Option Decoded)) (address : Nat) : Option (List Nat) :=
  decoded[address]?.join.map (Decoded.successors decoded.size address)

/-- Which addresses hold an instruction that execution can reach from the first one. -/
def reached (decoded : Array (Option Decoded)) : Array Bool :=
  explore (successors? decoded) (Array.replicate decoded.size false) [0]

/-- An address of an image: its tryte, and the instruction there if execution can reach it. -/
abbrev Cell := Tryte × Option Decoded

/-- The cells of an image, by address. -/
def cells (image : Word) : List Cell :=
  let decoded := decoded image
  let instructions := (decoded.zip (reached decoded)).toList.map fun (d, isReached) =>
    if isReached then d else none
  image.zip instructions

end BalancedTernary.Disassembly
