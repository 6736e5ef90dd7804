import BalancedTernary.Proofs.CheckedDisassembly
import BalancedTernary.Proofs.ControlFlow

/-!
# Printed rows

Which trytes the lines of a disassembly stand for. Section markers apart, the lines are those of the
rows, which tile the image. A row of code is a marked instruction, and a row of data is all that comes
before the next mark, with eight values on a line. A mark inside a row of code has no row.
-/

namespace BalancedTernary

namespace Word

theorem length_le_of_mem_rows {n : Nat} (hn : n ≠ 0) {w r : Word} (h : r ∈ w.rows n) :
    r.length ≤ n := by
  fun_induction rows n w with
  | case1 w hshort =>
    rw [List.eq_of_mem_singleton h]
    exact hshort.resolve_left hn
  | case2 w hlong ih =>
    rcases List.mem_cons.1 h with rfl | h
    · exact List.length_take_le _ _
    · exact ih h

/-- Only the last row may be short. -/
theorem length_of_mem_dropLast_rows {n : Nat} {w r : Word} (h : r ∈ (w.rows n).dropLast) :
    r.length = n := by
  fun_induction rows n w with
  | case1 w hshort => exact absurd h List.not_mem_nil
  | case2 w hlong ih =>
    have hne : rows n (w.drop n) ≠ [] := by
      rw [rows]
      split <;> exact List.cons_ne_nil _ _
    rw [List.dropLast_cons_of_ne_nil hne] at h
    rcases List.mem_cons.1 h with rfl | h
    · rw [List.length_take]
      omega
    · exact ih h

end Word

namespace Disassembly

open Assembly Text

/-! ## Lines of data -/

/-- The line is a directive with the values of the trytes, in decimal and in order. -/
def ListsValues (line : Text) (trytes : Word) : Prop :=
  ∃ words, fields isSeparator line = "tryte".toList :: words ∧ List.Forall₂ Decimal words trytes

/-- The lines list the trytes, eight of them on every line but the last. -/
def PrintsValues (lines : List Text) (trytes : Word) : Prop :=
  ∃ parts : List Word, parts.flatten = trytes ∧ (∀ part ∈ parts.dropLast, part.length = 8) ∧
    (∀ part ∈ parts, 0 < part.length ∧ part.length ≤ 8) ∧ List.Forall₂ ListsValues lines parts

theorem listsValues_dataLine (trytes : Word) : ListsValues (dataLine trytes) trytes := by
  refine ⟨trytes.map fun t => integer t.toInt, ?_, ?_⟩
  · have hblank : ∀ c ∈ List.replicate 10 ' ', isSeparator c = true := by
      intro c hc
      rw [List.eq_of_mem_replicate hc]
      decide
    exact (fields_append hblank (dataText trytes)).trans (fields_dataText trytes)
  · rw [List.forall₂_map_left_iff, List.forall₂_same]
    exact fun t _ => decimal_integer t

theorem printsValues_lines (labels : List Nat) (a : Nat) {trytes : Word} (hne : trytes ≠ []) :
    PrintsValues ((Row.data a trytes).lines labels) trytes := by
  refine ⟨trytes.rows 8, Word.flatten_rows 8 trytes,
    fun _ => Word.length_of_mem_dropLast_rows, fun part hpart => ⟨?_, ?_⟩, ?_⟩
  · exact List.length_pos_iff.2 (Word.ne_nil_of_mem_rows hne hpart)
  · exact Word.length_le_of_mem_rows (by decide) hpart
  · change List.Forall₂ ListsValues ((trytes.rows 8).map dataLine) _
    rw [List.forall₂_map_left_iff, List.forall₂_same]
    exact fun part _ => listsValues_dataLine part

/-! ## Lines of rows -/

/-- The line is neither blank nor a section marker. -/
def isRowLine (line : Text) : Bool :=
  !(trim line).isEmpty && (Segment.ofText? (trim line)).isNone

theorem isRowLine_line {labels : List Nat} {piece : Row} (hbody : Body (piece.body labels)) :
    isRowLine (piece.line labels) = true := by
  have hlabel : ∀ l ∈ piece.label? labels, IsLabel l := Row.isLabel_of_mem_label?
  unfold isRowLine Row.line
  rw [ofText?_statementLine hlabel hbody]
  simpa using trim_statementLine_ne_nil hlabel hbody

theorem isRowLine_marker (segment : Segment) : isRowLine segment.text = false := by
  cases segment <;> decide

theorem filter_printRows {labels : List Nat} {rows : List Row}
    (hbody : ∀ piece ∈ rows.flatMap Row.pieces, Body (piece.body labels))
    (current : Option Segment) :
    (printRows labels current rows).filter isRowLine = rows.flatMap (Row.lines labels) := by
  induction rows generalizing current with
  | nil => rfl
  | cons row rows ih =>
    rw [List.flatMap_cons, List.forall_mem_append] at hbody
    have hlines : (row.lines labels).filter isRowLine = row.lines labels := by
      rw [List.filter_eq_self, row.lines_eq, List.forall_mem_map]
      exact fun piece hpiece => isRowLine_line (hbody.1 piece hpiece)
    have hmarker : (if current = some row.segment then [] else [row.segment.text]).filter
        isRowLine = [] := by
      split
      · rfl
      · rw [List.filter_cons_of_neg (by simp [isRowLine_marker]), List.filter_nil]
    rw [printRows_cons, List.filter_append, List.filter_append, hmarker, hlines, ih hbody.2,
      List.nil_append, List.flatMap_cons]

/-! ## Marks and rows -/

/-- A row of code is a marked instruction, and a row of data has all trytes up to the next mark. -/
def Row.Spans (image : Word) : Row → Prop
  | code a d => Marked image a ∧ InstructionAt image a d
  | data a trytes =>
    trytes ≠ [] ∧ (image.drop a).take trytes.length = trytes ∧
      (∀ x, a ≤ x → x < a + trytes.length → ¬ Marked image x) ∧
        (a + trytes.length = image.length ∨ Marked image (a + trytes.length))

section Rows

variable {image : Word}

theorem not_marked_of_cell {a : Nat} {t : Tryte} (h : (cells image)[a]? = some (t, none)) :
    ¬ Marked image a := by
  intro hmarked
  obtain ⟨d, -, hd⟩ := hmarked.isNode
  rw [getElem?_cells, if_pos hmarked, hd] at h
  obtain ⟨t', -, h⟩ := Option.map_eq_some_iff.1 h
  exact nomatch (Prod.mk.inj h).2

/-- A run of data goes on to the end of the image or to an instruction. -/
theorem stop_of_data {start a : Nat} {cs : List Cell} {trytes : Word}
    (hcs : cs = (cells image).drop start) (h : Row.data a trytes ∈ Row.ofCells start cs) :
    a + trytes.length = image.length ∨
      ∃ t d, (cells image)[a + trytes.length]? = some (t, some d) := by
  fun_induction Row.ofCells start cs with
  | case1 start => exact absurd h List.not_mem_nil
  | case2 start t d rest ih =>
    have hcell : (cells image)[start]? = some (t, some d) := by
      rw [← List.head?_drop, ← hcs]
      rfl
    refine ih ?_ ((List.mem_cons.1 h).resolve_left Row.noConfusion)
    rw [tail_eq_drop hcs, Checked.drop_instruction (Checked.length_pos_of_cell hcell)]
  | case3 start t rest run ih =>
    have hsplit : rest = run ++ rest.dropWhile fun cell => cell.2.isNone :=
      List.takeWhile_append_dropWhile.symm
    rw [hsplit] at hcs
    obtain ⟨-, hrest, hbound⟩ := shows_run hcs
    rcases List.mem_cons.1 h with h | h
    · obtain ⟨rfl, rfl⟩ := Row.data.inj h
      have hstop : a + (t :: run.map Prod.fst).length = a + 1 + run.length := by
        rw [List.length_cons, List.length_map]
        omega
      rw [hstop, ← List.head?_drop, ← hrest]
      -- What ends the run is the first cell that has an instruction.
      cases hnext : rest.dropWhile fun cell => cell.2.isNone with
      | nil =>
        rw [hnext] at hrest
        have hle := List.drop_eq_nil_iff.1 hrest.symm
        rw [length_cells] at hle
        exact .inl (Nat.le_antisymm hbound hle)
      | cons cell later =>
        have hsome := List.head?_dropWhile_not (fun cell : Cell => cell.2.isNone) rest
        rw [hnext] at hsome
        obtain ⟨d, hd⟩ : ∃ d, cell.2 = some d :=
          Option.isSome_iff_exists.1 (Option.isNone_eq_false_iff.1 hsome)
        exact .inr ⟨cell.1, d, by rw [← hd]; rfl⟩
    · exact ih hrest h

theorem spans_of_mem_rows {row : Row} (h : row ∈ rows image) : row.Spans image := by
  have hshows := (tiles_rows image).shows h
  have hrenders := renders_rows h
  cases row with
  | code a d =>
    obtain ⟨t, ht⟩ := hrenders
    have hlt : a < image.length := length_cells image ▸ (List.getElem?_eq_some_iff.1 ht).1
    exact ⟨(marked_of_cell ht).1, hlt, hshows⟩
  | data a trytes =>
    refine ⟨hshows.1, hshows.2, fun x hlo hhi => ?_, ?_⟩
    · -- The cell at `x` is one of the run, and has no instruction.
      have hlt : x - a < trytes.length := by omega
      have hcell := hrenders (x - a) _ (List.getElem?_eq_getElem hlt)
      rw [Nat.add_sub_cancel' hlo] at hcell
      exact not_marked_of_cell hcell
    · rcases stop_of_data rfl h with hstop | ⟨t, d, hcell⟩
      · exact .inl hstop
      · exact .inr (marked_of_cell hcell).1

/-- Rows that have a tryte in common are the same. -/
theorem Tiles.eq_of_overlap {start x : Nat} {rows : List Row} (h : Tiles image start rows)
    {r s : Row} (hr : r ∈ rows) (hs : s ∈ rows) (hrx : r.address ≤ x ∧ x < r.stop)
    (hsx : s.address ≤ x ∧ x < s.stop) : r = s := by
  induction rows generalizing start with
  | nil => exact nomatch hr
  | cons row rows ih =>
    obtain ⟨haddress, -, hrest⟩ := h
    -- The first row ends before all others start.
    have hfirst {t : Row} (ht : t ∈ rows) : row.stop ≤ t.address := by
      have hle := hrest.le_address ht
      unfold Row.stop
      omega
    rcases List.mem_cons.1 hr with rfl | hr'
    · rcases List.mem_cons.1 hs with rfl | hs'
      · rfl
      · have hle := hfirst hs'
        omega
    · rcases List.mem_cons.1 hs with rfl | hs'
      · have hle := hfirst hr'
        omega
      · exact ih hrest hr' hs'

end Rows

/-- The disassembly of the image shows each tryte of it in one row. -/
structure Rendered (image : Word) : Prop where
  lines : (Text.lines (disassemble image)).filter isRowLine =
    (rows image).flatMap (Row.lines (labelAddresses image))
  ne_nil : rows image ≠ []
  tiles : Tiles image 0 (rows image)
  spans : ∀ row ∈ rows image, row.Spans image
  values : ∀ a trytes, Row.data a trytes ∈ rows image →
    PrintsValues ((Row.data a trytes).lines (labelAddresses image)) trytes
  once : ∀ x < image.length, ∃! row, row ∈ rows image ∧ row.address ≤ x ∧ x < row.stop
  /-- The loop that goes on by a row at a time finds the rows. -/
  rowsAt : Checked.rowsAt image (cells image) 0 = some (rows image)
  /-- The loop that goes on by one tryte wherever there is no mark finds the same rows of code. -/
  codeAddresses : Checked.codeAddresses (cells image) image.length 0 =
    some ((rows image).filterMap Row.codeAddress?)

theorem rendered_of_ne_nil (image : Word) (hne : image ≠ []) : Rendered image where
  lines := by
    have hbody : ∀ piece ∈ (rows image).flatMap Row.pieces,
        Body (piece.body (labelAddresses image)) :=
      fun piece hpiece => ((tiles_rows image).pieces.shows hpiece).body _
    rw [disassemble_eq, lines_printRows hbody, List.filter_append, filter_printRows hbody]
    exact List.append_nil _
  ne_nil := by
    intro hnil
    have htiles := tiles_rows image
    rw [hnil] at htiles
    exact hne (List.length_eq_zero_iff.1 (show 0 = image.length from htiles).symm)
  tiles := tiles_rows image
  spans := fun _ => spans_of_mem_rows
  values := fun a _ h => printsValues_lines _ a ((tiles_rows image).shows h).1
  once := by
    intro x hx
    obtain ⟨row, hrow, hin⟩ := (tiles_rows image).exists_mem (Nat.zero_le x) hx
    refine ⟨row, ⟨hrow, hin⟩, fun r hr => ?_⟩
    exact (tiles_rows image).eq_of_overlap hr.1 hrow hr.2 hin
  rowsAt := by
    rw [Checked.rowsAt_eq_some, List.drop_zero]
    rfl
  codeAddresses := by
    rw [Checked.codeAddresses_eq_some, List.drop_zero]
    rfl

/-- A jump into the move behind it, whose last tryte starts a restart. -/
def overlapping : Word :=
  ([82, 9, 0, 3, -1, 9, 108, -334, 243, -27, 7] : List Int).flatMap fun v =>
    Word.ofTrits (Trit.expand 6 v)

theorem overlapping_rendered :
    overlapping ≠ [] ∧ Marked overlapping 4 ∧ Marked overlapping 7 ∧
      (∃ d, InstructionAt overlapping 4 d ∧ 7 < 4 + d.length) ∧ Rendered overlapping := by
  have hjump : InstructionAt overlapping 0
      ⟨.jump, "jlg", [⟨false, .branch 3 7⟩], 4⟩ := ⟨by decide, by decide +kernel⟩
  have hmove : InstructionAt overlapping 4
      ⟨.move, "mov", [⟨false, .immediate (-334)⟩, ⟨false, .register .pos⟩], 4⟩ :=
    ⟨by decide, by decide +kernel⟩
  have hrestart : InstructionAt overlapping 7 ⟨.restart, "restart", [], 3⟩ :=
    ⟨by decide, by decide +kernel⟩
  have hnext : Edge overlapping 0 4 := .next hjump (by decide) (by decide) ⟨_, hmove⟩
  have hbranch : Edge overlapping 0 7 :=
    .branch hjump ⟨rfl, by decide, _, List.mem_cons_self, 3, rfl, rfl⟩ ⟨_, hrestart⟩
  have hne : overlapping ≠ [] := by decide
  exact ⟨hne, marked_iff_reachable.2 ⟨⟨_, hjump⟩, .single hnext⟩,
    marked_iff_reachable.2 ⟨⟨_, hjump⟩, .single hbranch⟩, ⟨_, hmove, by decide⟩,
    rendered_of_ne_nil overlapping hne⟩

end Disassembly

end BalancedTernary
