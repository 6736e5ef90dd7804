import BalancedTernary.Proofs.PrintedSource

/-!
# Rows cover the image

The rows of a disassembly start at the first tryte of the image, each one where the one before it
ends, and end at the last tryte. So do the pieces that they are printed in.
-/

namespace BalancedTernary

namespace Disassembly

/-! ## Cells -/

section Explore

variable {successors : Nat → Option (List Nat)} {reached : Array Bool} {address : Nat}
  {pending : List Nat}

theorem explore_of_unmarked {next : List Nat} (h : address < reached.size)
    (hr : reached[address] = false) (hnext : successors address = some next) :
    explore successors reached (address :: pending) =
      explore successors (reached.set address true h) (next ++ pending) := by
  conv_lhs => rw [explore, dif_pos h, dif_pos hr, hnext]

theorem explore_of_marked (h : address < reached.size) (hr : reached[address] = true) :
    explore successors reached (address :: pending) = explore successors reached pending := by
  conv_lhs => rw [explore, dif_pos h, dif_neg (by rw [hr]; decide)]

end Explore

theorem size_explore (successors : Nat → Option (List Nat)) (reached : Array Bool)
    (pending : List Nat) : (explore successors reached pending).size = reached.size := by
  fun_induction explore successors reached pending with
  | case1 => rfl
  | case2 reached address pending h hr next hnext ih => rw [ih, Array.size_set]
  | case3 => assumption
  | case4 => assumption
  | case5 => assumption

@[simp] theorem length_sweep (address : Nat) (image : Word) :
    (sweep address image).length = image.length := by
  induction image generalizing address with
  | nil => rfl
  | cons t image ih => rw [sweep, List.length_cons, List.length_cons, ih]

theorem getElem?_sweep (address : Nat) {image : Word} {k : Nat} (hk : k < image.length) :
    (sweep address image)[k]? = some (decode? (address + k) (image.drop k)) := by
  induction image generalizing address k with
  | nil => exact absurd hk (Nat.not_lt_zero k)
  | cons t image ih =>
    cases k with
    | zero => rfl
    | succ k =>
      rw [sweep, List.getElem?_cons_succ, ih _ (Nat.lt_of_succ_lt_succ hk), Nat.add_assoc,
        Nat.add_comm 1 k]
      rfl

/-- The instructions that are shown, by address. -/
def instructions (image : Word) : List (Option Decoded) :=
  ((decoded image).zip (reached (decoded image))).toList.map fun (d, isReached) =>
    if isReached then d else none

theorem cells_eq (image : Word) : cells image = image.zip (instructions image) := rfl

theorem length_instructions (image : Word) : (instructions image).length = image.length := by
  have hsize : (decoded image).size = image.length := by
    rw [decoded, List.size_toArray, length_sweep]
  have hreached : (reached (decoded image)).size = image.length := by
    rw [reached, size_explore, Array.size_replicate, hsize]
  rw [instructions, List.length_map, Array.length_toList, Array.size_zip, hsize, hreached,
    Nat.min_self]

theorem map_fst_cells (image : Word) : (cells image).map Prod.fst = image := by
  rw [cells_eq]
  exact List.map_fst_zip (length_instructions image).ge

theorem length_cells (image : Word) : (cells image).length = image.length := by
  rw [← List.length_map Prod.fst, map_fst_cells]

/-- The instruction of a cell is what decodes there. -/
theorem decode?_of_mem_cells {image : Word} {k : Nat} {t : Tryte} {d : Decoded}
    (h : (cells image)[k]? = some (t, some d)) : decode? k (image.drop k) = some d := by
  have hk : k < image.length := length_cells image ▸ (List.getElem?_eq_some_iff.1 h).1
  rw [cells_eq, List.getElem?_zip_eq_some] at h
  have h := h.2
  rw [instructions, List.getElem?_map, Array.getElem?_toList] at h
  obtain ⟨⟨d', isReached⟩, hzip, h⟩ := Option.map_eq_some_iff.1 h
  have hdecoded := (Array.getElem?_zip_eq_some.1 hzip).1
  rw [decoded, List.getElem?_toArray, getElem?_sweep 0 hk, Nat.zero_add] at hdecoded
  rw [Option.some.inj hdecoded]
  dsimp only at h
  split at h
  · exact h
  · exact nomatch h

/-! ## Rows -/

namespace Row

def address : Row → Nat
  | code address _ => address
  | data address _ => address

def length : Row → Nat
  | code _ d => d.length
  | data _ trytes => trytes.length

/-- The address after the last tryte. -/
def stop (row : Row) : Nat := row.address + row.length

/-- The trytes of the image that the row stands for. -/
def trytes (image : Word) (row : Row) : Word := (image.drop row.address).take row.length

/-- The row is right about the image. -/
def Shows (image : Word) : Row → Prop
  | code address d => decode? address (image.drop address) = some d
  | data address trytes => trytes ≠ [] ∧ (image.drop address).take trytes.length = trytes

theorem Shows.bounds {image : Word} {row : Row} (h : row.Shows image) :
    0 < row.length ∧ row.stop ≤ image.length := by
  have hbounds : 0 < row.length ∧ row.length ≤ (image.drop row.address).length := by
    cases row with
    | code address d =>
      obtain ⟨format, c, hd⟩ := exists_recognised h
      have hlength : d.length = 3 + format.extensions.length := hd.length
      exact ⟨show 0 < d.length by omega, hd.enough⟩
    | data address trytes =>
      refine ⟨List.length_pos_iff.2 h.1, ?_⟩
      have htake := congrArg List.length h.2
      rw [List.length_take] at htake
      change trytes.length ≤ (image.drop address).length
      omega
  rw [List.length_drop] at hbounds
  unfold stop
  omega

theorem Shows.length_trytes {image : Word} {row : Row} (h : row.Shows image) :
    (row.trytes image).length = row.length := by
  have hstop := h.bounds.2
  unfold stop at hstop
  rw [trytes, List.length_take, List.length_drop]
  omega

end Row

/-- Each row starts where the one before it ends, the first one at `start`, and the last one ends
with the image. -/
def Tiles (image : Word) (start : Nat) : List Row → Prop
  | [] => start = image.length
  | row :: rest =>
    row.address = start ∧ row.Shows image ∧ Tiles image (start + row.length) rest

theorem tail_eq_drop {cs rest : List Cell} {c : Cell} {start : Nat}
    (h : c :: rest = cs.drop start) : rest = cs.drop (start + 1) := by
  rw [← List.drop_drop, ← h]
  rfl

/-- A run of cells is a row of data, and the cells after it come next. -/
theorem shows_run {image : Word} {start : Nat} {c : Cell} {run rest : List Cell}
    (h : c :: (run ++ rest) = (cells image).drop start) :
    (Row.data start (c.1 :: run.map Prod.fst)).Shows image ∧
      rest = (cells image).drop (start + 1 + run.length) ∧
      start + 1 + run.length ≤ image.length := by
  have himage : image.drop start = c.1 :: (run ++ rest).map Prod.fst := by
    conv_lhs => rw [← map_fst_cells image, ← List.map_drop, ← h]
    rfl
  refine ⟨⟨List.cons_ne_nil _ _, ?_⟩, ?_, ?_⟩
  · rw [himage, List.length_cons, List.length_map, List.take_succ_cons, List.map_append,
      List.take_left' (List.length_map _)]
  · rw [← List.drop_drop, ← tail_eq_drop h, List.drop_left]
  · have hlength := congrArg List.length h
    rw [List.length_cons, List.length_append, List.length_drop, length_cells] at hlength
    omega

/-- The rows of the cells from an address on tile the image from there on. -/
theorem tiles_ofCells {image : Word} {start : Nat} {cs : List Cell}
    (hcs : cs = (cells image).drop start) (hstart : start ≤ image.length) :
    Tiles image start (Row.ofCells start cs) := by
  fun_induction Row.ofCells start cs with
  | case1 start =>
    have hle := List.drop_eq_nil_iff.1 hcs.symm
    rw [length_cells] at hle
    exact Nat.le_antisymm hstart hle
  | case2 start t d rest ih =>
    -- An instruction skips the cells inside it, whatever they hold.
    have hcell : (cells image)[start]? = some (t, some d) := by
      rw [← List.head?_drop, ← hcs]
      rfl
    have hshows : (Row.code start d).Shows image := decode?_of_mem_cells hcell
    obtain ⟨hpos, hstop⟩ := hshows.bounds
    change 0 < d.length at hpos
    refine ⟨rfl, hshows, ih ?_ hstop⟩
    rw [tail_eq_drop hcs, List.drop_drop, Nat.add_assoc, Nat.add_sub_cancel' hpos]
  | case3 start t rest run ih =>
    -- A run of data ends at the next cell with an instruction.
    have hsplit : rest = run ++ rest.dropWhile fun cell => cell.2.isNone :=
      List.takeWhile_append_dropWhile.symm
    rw [hsplit] at hcs
    obtain ⟨hshows, hrest, hbound⟩ := shows_run hcs
    refine ⟨rfl, hshows, ?_⟩
    change Tiles image (start + (t :: run.map Prod.fst).length) _
    rw [List.length_cons, List.length_map, Nat.add_comm run.length, ← Nat.add_assoc]
    exact ih hrest hbound

/-- The rows of the disassembly of an image. -/
def rows (image : Word) : List Row := Row.ofCells 0 (cells image)

theorem tiles_rows (image : Word) : Tiles image 0 (rows image) :=
  tiles_ofCells rfl (Nat.zero_le _)

namespace Tiles

variable {image : Word} {start : Nat} {rows : List Row}

theorem shows (h : Tiles image start rows) {row : Row} (hrow : row ∈ rows) :
    row.Shows image := by
  induction rows generalizing start with
  | nil => exact nomatch hrow
  | cons r rows ih =>
    obtain rfl | hrow := List.mem_cons.1 hrow
    · exact h.2.1
    · exact ih h.2.2 hrow

theorem le_address (h : Tiles image start rows) {row : Row} (hrow : row ∈ rows) :
    start ≤ row.address := by
  induction rows generalizing start with
  | nil => exact nomatch hrow
  | cons r rows ih =>
    obtain rfl | hrow := List.mem_cons.1 hrow
    · exact h.1.ge
    · exact Nat.le_trans (Nat.le_add_right _ _) (ih h.2.2 hrow)

theorem pairwise_address (h : Tiles image start rows) :
    rows.Pairwise fun r s => r.address < s.address := by
  induction rows generalizing start with
  | nil => exact .nil
  | cons r rows ih =>
    refine .cons (fun s hs => ?_) (ih h.2.2)
    have hnext := h.2.2.le_address hs
    have hpos := h.2.1.bounds.1
    have haddress := h.1
    omega

/-- Every tryte from `start` on is in one row. -/
theorem flatMap_trytes (h : Tiles image start rows) :
    rows.flatMap (Row.trytes image) = image.drop start := by
  induction rows generalizing start with
  | nil =>
    rw [show start = image.length from h, List.drop_length]
    rfl
  | cons r rows ih =>
    rw [List.flatMap_cons, ih h.2.2, Row.trytes, h.1, ← List.drop_drop, List.take_append_drop]

end Tiles

end Disassembly

/-! ## Pieces -/

namespace Word

theorem flatten_rows (n : Nat) (w : Word) : (w.rows n).flatten = w := by
  fun_induction rows n w with
  | case1 w h => exact List.flatten_singleton
  | case2 w h ih => rw [List.flatten_cons, ih, List.take_append_drop]

theorem ne_nil_of_mem_rows {n : Nat} {w r : Word} (hw : w ≠ []) (h : r ∈ w.rows n) : r ≠ [] := by
  fun_induction rows n w with
  | case1 w hshort => rwa [List.eq_of_mem_singleton h]
  | case2 w hlong ih =>
    have hlength : n ≠ 0 ∧ n < w.length := by omega
    obtain rfl | h := List.mem_cons.1 h
    · apply List.ne_nil_of_length_pos
      rw [List.length_take]
      omega
    · refine ih (List.ne_nil_of_length_pos ?_) h
      rw [List.length_drop]
      omega

end Word

namespace Disassembly

variable {image : Word} {start : Nat} {rest : List Row}

theorem tiles_dataFrom {ws : List Word} (hne : ∀ w ∈ ws, w ≠ [])
    (h : (image.drop start).take ws.flatten.length = ws.flatten)
    (hrest : Tiles image (start + ws.flatten.length) rest) :
    Tiles image start (Row.dataFrom start ws ++ rest) := by
  induction ws generalizing start with
  | nil => exact hrest
  | cons w ws ih =>
    rw [List.forall_mem_cons] at hne
    rw [List.flatten_cons, List.length_append] at h hrest
    -- Both parts of the flattened trytes are found in the image, one after the other.
    have hfirst : (image.drop start).take w.length = w := by
      have htake := congrArg (List.take w.length) h
      rwa [List.take_take, Nat.min_eq_left (Nat.le_add_right _ _), List.take_left] at htake
    have hlater : (image.drop (start + w.length)).take ws.flatten.length = ws.flatten := by
      have hdrop := congrArg (List.drop w.length) h
      rwa [List.drop_take, Nat.add_sub_cancel_left, List.drop_drop, List.drop_left] at hdrop
    rw [← Nat.add_assoc] at hrest
    exact ⟨rfl, ⟨hne.1, hfirst⟩, ih hne.2 hlater hrest⟩

theorem Tiles.pieces {rows : List Row} (h : Tiles image start rows) :
    Tiles image start (rows.flatMap Row.pieces) := by
  induction rows generalizing start with
  | nil => exact h
  | cons row rows ih =>
    obtain ⟨haddress, hshows, hrest⟩ := h
    rw [List.flatMap_cons]
    cases row with
    | code address d => exact ⟨haddress, hshows, ih hrest⟩
    | data address trytes =>
      obtain rfl : address = start := haddress
      have hflatten := Word.flatten_rows 8 trytes
      apply tiles_dataFrom fun w hw => Word.ne_nil_of_mem_rows hshows.1 hw
      · rw [hflatten]
        exact hshows.2
      · rw [hflatten]
        exact ih hrest

theorem Row.code_mem_pieces {rows : List Row} {address : Nat} {d : Decoded} :
    Row.code address d ∈ rows.flatMap Row.pieces ↔ Row.code address d ∈ rows := by
  rw [List.mem_flatMap]
  constructor
  · rintro ⟨row, hrow, h⟩
    cases row with
    | code address' d' => rwa [List.eq_of_mem_singleton h]
    | data address' trytes => exact nomatch Row.segment_of_mem_dataFrom h
  · intro h
    exact ⟨_, h, List.mem_cons_self⟩

/-! ## The disassembly of an image -/

theorem Row.Shows.body {row : Row} (h : row.Shows image) (labels : List Nat) :
    Text.Body (row.body labels) := by
  cases row with
  | code address d =>
    obtain ⟨format, c, hd⟩ := exists_recognised h
    exact d.body_text labels hd.token_mnemonic hd.two_le_length
  | data address trytes => exact body_dataText h.1

/-- The addresses that have a label in the disassembly of an image. -/
def labelAddresses (image : Word) : List Nat := labelled (cells image) (rows image)

theorem disassemble_eq (image : Word) :
    disassemble image =
      (printRows (labelAddresses image) none (rows image)).flatMap fun line => line ++ ['\n'] := rfl

/-- A label stands at a row of code. -/
theorem exists_code_of_mem_labelAddresses {address : Nat} (h : address ∈ labelAddresses image) :
    ∃ d, Row.code address d ∈ rows image := by
  obtain ⟨row, hrow, haddress⟩ := List.mem_filterMap.1 (List.mem_filter.1 h).1
  cases row with
  | code address' d =>
    rw [← show address' = address from Option.some.inj haddress]
    exact ⟨d, hrow⟩
  | data address' trytes => exact nomatch haddress

/-- The statements of a disassembly are the pieces of its rows. -/
theorem says_disassemble (image : Word) :
    List.Forall₂ (Row.Says (labelAddresses image)) ((rows image).flatMap Row.pieces)
      (Assembly.statements [';'] (disassemble image)) := by
  rw [disassemble_eq]
  apply says_statements
  intro piece hpiece
  exact ((tiles_rows image).pieces.shows hpiece).body _

end Disassembly

end BalancedTernary
