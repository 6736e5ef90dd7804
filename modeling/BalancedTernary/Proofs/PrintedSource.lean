import BalancedTernary.Assembly.Fragment
import BalancedTernary.Proofs.Reassembly

/-!
# Reading printed rows

The lines of a disassembly are statements, one for each instruction and one for each row of up to
eight trytes of data. Reading them gives back the segment, the label and the text of each.
-/

namespace BalancedTernary

open Assembly Text

namespace Disassembly

/-! ## Data -/

/-- The directive for a row of trytes. -/
def dataText (trytes : Word) : Text :=
  mnemonicColumn "tryte".toList (join [',', ' '] (trytes.map fun t => integer t.toInt))

theorem token_tryte : Token "tryte".toList := token_of_all (by decide) (by decide)

theorem token_values (trytes : Word) :
    ∀ s ∈ trytes.map fun t => integer t.toInt, Token s :=
  List.forall_mem_map.2 fun t _ => token_integer t.toInt

theorem body_dataText {trytes : Word} (hne : trytes ≠ []) : Body (dataText trytes) :=
  body_mnemonicColumn token_tryte (Body.join (by simpa using hne) (token_values trytes))

theorem encodeValue_integer (body : Text) (t : Tryte) :
    Data.encodeValue body .tryte (integer t.toInt) = .ok [.tryte t] := by
  have h := decimal_integer t
  unfold Data.encodeValue
  rw [h.ofName?_eq_none, h.isName_eq_false, h.encode_eq_ok]
  rfl

theorem fields_dataText (trytes : Word) :
    fields isSeparator (dataText trytes) =
      "tryte".toList :: trytes.map fun t => integer t.toInt := by
  have hvalues := fields_join (List.cons_ne_nil ',' [' ']) (List.all_eq_true.1 (by decide))
    fun s hs => ⟨(token_values trytes s hs).ne_nil, (token_values trytes s hs).separates⟩
  unfold dataText
  rw [mnemonicColumn_eq, List.replicate_succ, List.cons_append, fields_append_cons _ _ (by decide),
    token_tryte.fields, fields_append (isRun_column _), hvalues, List.singleton_append]

theorem assemble_dataText {trytes : Word} (hne : trytes ≠ []) :
    Data.assemble (dataText trytes) = .ok (trytes.map .tryte) := by
  have hwidth : Width.ofName? "tryte".toList = some .tryte := by decide
  have hvalues : (trytes.map fun t => integer t.toInt).mapM
      (Data.encodeValue (dataText trytes) .tryte) = .ok (trytes.map fun t => [.tryte t]) := by
    rw [Outcome.mapM_eq_ok, List.forall₂_map_left_iff, List.forall₂_map_right_iff,
      List.forall₂_same]
    exact fun t _ => encodeValue_integer _ t
  unfold Data.assemble
  rw [fields_dataText]
  dsimp only
  rw [hwidth]
  dsimp only
  rw [if_neg (by simpa using hne), hvalues]
  change Except.ok (trytes.map fun t => [Relocatable.tryte t]).flatten = _
  rw [← List.flatMap_def, ← List.map_eq_flatMap]

/-! ## Lines -/

/-- A line with a statement. -/
def statementLine (label : Option Label) (body : Text) : Text :=
  labelColumn (label.elim [] (· ++ [':'])) body

/-- A text that can stand before a colon. -/
structure IsLabel (l : Label) : Prop where
  token : Token l
  name : Label.isName l = true
  noRegister : Register.ofName? l = none

theorem isLabel_labelName (a : Nat) : IsLabel (labelName a) :=
  ⟨token_labelName a, isName_labelName a, ofName?_labelName a⟩

section Lines

variable {label : Option Label} {body : Text}

theorem statementLine_none (body : Text) :
    statementLine none body = List.replicate 10 ' ' ++ body := rfl

theorem statementLine_some (l : Label) (body : Text) :
    statementLine (some l) body =
      l ++ ':' :: (List.replicate (10 - (l ++ [':']).length) ' ' ++ body) := by
  change padRight 10 (l ++ [':']) ++ body = _
  unfold padRight
  simp only [List.append_assoc, List.cons_append, List.nil_append]

theorem notMem_statementLine (hlabel : ∀ l ∈ label, IsLabel l) (hbody : Body body) {c : Char}
    (hc : isPlain c = false) (hjoint : c ∉ ':' :: joints) : c ∉ statementLine label body := by
  rw [List.mem_cons, not_or] at hjoint
  have hblank (n : Nat) : c ∉ List.replicate n ' ' := fun h =>
    hjoint.2 (List.eq_of_mem_replicate h ▸ List.mem_cons_self)
  have hbody := hbody.notMem hc hjoint.2
  cases label with
  | none =>
    rw [statementLine_none, List.mem_append, not_or]
    exact ⟨hblank 10, hbody⟩
  | some l =>
    rw [statementLine_some, List.mem_append, List.mem_cons, List.mem_append, not_or, not_or, not_or]
    exact ⟨(hlabel l rfl).token.notMem hc, hjoint.1, hblank _, hbody⟩

theorem trim_statementLine_none (hbody : Body body) : trim (statementLine none body) = body := by
  rw [statementLine_none, trim_append (List.all_eq_true.1 (by decide)), hbody.trim_eq]

theorem trim_statementLine_some {l : Label} (hl : IsLabel l) (hbody : Body body) :
    trim (statementLine (some l) body) = statementLine (some l) body := by
  have hlabel := hl.token.body
  rw [statementLine_some]
  -- The line starts with the label and ends with the body, and neither end is blank.
  apply trim_eq_self
  · rw [List.head?_append_of_ne_nil _ hlabel.ne_nil]
    exact fun c hc => isBlank_of_isPlain (hlabel.first c hc)
  · rw [← List.cons_append, ← List.append_assoc, List.getLast?_append_of_ne_nil _ hbody.ne_nil]
    exact fun c hc => isBlank_of_isPlain (hbody.last c hc)

theorem trim_statementLine_ne_nil (hlabel : ∀ l ∈ label, IsLabel l) (hbody : Body body) :
    trim (statementLine label body) ≠ [] := by
  cases label with
  | none =>
    rw [trim_statementLine_none hbody]
    exact hbody.ne_nil
  | some l =>
    rw [trim_statementLine_some (hlabel l rfl) hbody, statementLine_some]
    exact List.append_ne_nil_of_left_ne_nil (hlabel l rfl).token.ne_nil _

/-- A section marker starts with a dot, and no statement has one. -/
theorem ofText?_statementLine (hlabel : ∀ l ∈ label, IsLabel l) (hbody : Body body) :
    Segment.ofText? (trim (statementLine label body)) = none := by
  have hdot : '.' ∉ trim (statementLine label body) := by
    cases label with
    | none =>
      rw [trim_statementLine_none hbody]
      exact hbody.notMem (by decide) (by decide)
    | some l =>
      rw [trim_statementLine_some (hlabel l rfl) hbody]
      exact notMem_statementLine hlabel hbody (by decide) (by decide)
  unfold Segment.ofText?
  rw [List.find?_eq_none]
  intro segment _ heq
  rw [decide_eq_true_eq] at heq
  -- If the line were a marker, the dot would be in it.
  rw [← heq] at hdot
  cases segment <;> exact hdot List.mem_cons_self

/-- A statement falls apart into its label and its body. -/
theorem split_statementLine (hlabel : ∀ l ∈ label, IsLabel l) (hbody : Body body) (n : Nat)
    (segment : Segment) :
    Statement.split ⟨n, segment, trim (statementLine label body)⟩ = .ok (label, body) := by
  unfold Statement.split
  dsimp only
  cases label with
  | none =>
    rw [trim_statementLine_none hbody, cut?_of_notMem (hbody.notMem (by decide) (by decide))]
    dsimp only
    rw [hbody.trim_eq]
  | some l =>
    have hl := hlabel l rfl
    rw [trim_statementLine_some hl hbody, statementLine_some,
      cut?_append_cons (hl.token.notMem (by decide))]
    dsimp only
    rw [hl.token.body.trim_eq, hl.name, hl.noRegister, trim_append _ body, hbody.trim_eq]
    · rfl
    · intro c hc
      rw [List.eq_of_mem_replicate hc]
      decide

end Lines

/-! ## Rows -/

namespace Row

/-- Rows of data from `address` on. -/
def dataFrom (address : Nat) : List Word → List Row
  | [] => []
  | w :: rest => data address w :: dataFrom (address + w.length) rest

/-- A row for each statement: data has one for every eight trytes. -/
def pieces : Row → List Row
  | code address d => [code address d]
  | data address trytes => dataFrom address (trytes.rows 8)

def label? (labels : List Nat) : Row → Option Label
  | code address _ => if address ∈ labels then some (labelName address) else none
  | data _ _ => none

def body (labels : List Nat) : Row → Text
  | code _ d => d.text labels
  | data _ trytes => dataText trytes

def line (labels : List Nat) (row : Row) : Text :=
  statementLine (row.label? labels) (row.body labels)

theorem isLabel_of_mem_label? {labels : List Nat} {row : Row} :
    ∀ l ∈ row.label? labels, IsLabel l := by
  intro l hl
  cases row with
  | code address d =>
    change (if address ∈ labels then some (labelName address) else none) = some l at hl
    split at hl
    · rw [← Option.some.inj hl]
      exact isLabel_labelName address
    · exact nomatch hl
  | data address trytes => exact absurd hl (Option.not_mem_none l)

theorem segment_of_mem_dataFrom {address : Nat} {ws : List Word} {piece : Row}
    (h : piece ∈ dataFrom address ws) : piece.segment = .data := by
  induction ws generalizing address with
  | nil => exact nomatch h
  | cons w ws ih =>
    obtain rfl | h := List.mem_cons.1 h
    · rfl
    · exact ih h

theorem segment_of_mem_pieces {row piece : Row} (h : piece ∈ row.pieces) :
    piece.segment = row.segment := by
  cases row with
  | code address d => rw [List.eq_of_mem_singleton h]
  | data address trytes => exact segment_of_mem_dataFrom h

theorem map_line_dataFrom (labels : List Nat) (address : Nat) (ws : List Word) :
    (dataFrom address ws).map (line labels) = ws.map dataLine := by
  induction ws generalizing address with
  | nil => rfl
  | cons w ws ih =>
    rw [dataFrom, List.map_cons, List.map_cons, ih]
    rfl

theorem lines_eq (labels : List Nat) (row : Row) :
    row.lines labels = row.pieces.map (line labels) := by
  cases row with
  | code address d =>
    change [labelColumn (if address ∈ labels then labelName address ++ [':'] else []) _] =
      [statementLine (if address ∈ labels then some (labelName address) else none) _]
    split <;> rfl
  | data address trytes => exact (map_line_dataFrom labels address _).symm

end Row

/-- What a printed row says. -/
def Row.Says (labels : List Nat) (row : Row) (s : Statement) : Prop :=
  s.segment = row.segment ∧ s.split = .ok (row.label? labels, row.body labels)

/-! ## Source lines -/

theorem readFrom_marker (current : Option Segment) (n : Nat) (segment : Segment)
    (rest : List Text) :
    SourceLine.readFrom [';'] current n (segment.text :: rest) =
      SourceLine.readFrom [';'] (some segment) (n + 1) rest := by
  cases segment <;> rfl

theorem readFrom_statementLine {label : Option Label} {body : Text}
    (hlabel : ∀ l ∈ label, IsLabel l) (hbody : Body body) (current : Option Segment) (n : Nat)
    (rest : List Text) :
    SourceLine.readFrom [';'] current n (statementLine label body :: rest) =
      ⟨n, current, trim (statementLine label body)⟩ ::
        SourceLine.readFrom [';'] current (n + 1) rest := by
  have hcomment : ';' ∉ statementLine label body :=
    notMem_statementLine hlabel hbody (by decide) (by decide)
  have hline : withoutComment [';'] (statementLine label body) = statementLine label body :=
    before_of_notMem hcomment
  have hne := trim_statementLine_ne_nil hlabel hbody
  rw [SourceLine.readFrom, hline, ofText?_statementLine hlabel hbody]
  dsimp only
  rw [if_neg (by simpa using hne)]

/-- The statements from line `n` on, when `segment` is the current one. -/
def statementsFrom (segment : Option Segment) (n : Nat) (lines : List Text) : List Statement :=
  (SourceLine.readFrom [';'] segment n lines).filterMap SourceLine.statement?

section Statements

variable {labels : List Nat}

theorem says_lines {segment : Segment} {pieces : List Row}
    (hsegment : ∀ piece ∈ pieces, piece.segment = segment)
    (hbody : ∀ piece ∈ pieces, Body (piece.body labels)) (n : Nat) (rest : List Text) :
    ∃ said, List.Forall₂ (Row.Says labels) pieces said ∧
      statementsFrom (some segment) n (pieces.map (Row.line labels) ++ rest) =
        said ++ statementsFrom (some segment) (n + pieces.length) rest := by
  induction pieces generalizing n with
  | nil => exact ⟨[], .nil, rfl⟩
  | cons piece pieces ih =>
    rw [List.forall_mem_cons] at hsegment hbody
    obtain ⟨said, hsaid, hrest⟩ := ih hsegment.2 hbody.2 (n + 1)
    have hlabel : ∀ l ∈ piece.label? labels, IsLabel l := Row.isLabel_of_mem_label?
    refine ⟨⟨n, segment, trim (piece.line labels)⟩ :: said, .cons ⟨hsegment.1.symm, ?_⟩ hsaid, ?_⟩
    · exact split_statementLine hlabel hbody.1 n segment
    · rw [List.length_cons, Nat.add_comm pieces.length, ← Nat.add_assoc, List.cons_append, ← hrest]
      unfold statementsFrom
      rw [List.map_cons, List.cons_append, Row.line, readFrom_statementLine hlabel hbody.1]
      rfl

theorem printRows_cons (labels : List Nat) (current : Option Segment) (row : Row)
    (rows : List Row) :
    printRows labels current (row :: rows) =
      (if current = some row.segment then [] else [row.segment.text]) ++
        (row.lines labels ++ printRows labels (some row.segment) rows) :=
  List.append_assoc _ _ _

theorem says_printRows {rows : List Row}
    (hbody : ∀ piece ∈ rows.flatMap Row.pieces, Body (piece.body labels))
    (current : Option Segment) (n : Nat) :
    List.Forall₂ (Row.Says labels) (rows.flatMap Row.pieces)
      (statementsFrom current n (printRows labels current rows ++ [[]])) := by
  induction rows generalizing current n with
  | nil => exact .nil
  | cons row rows ih =>
    rw [List.flatMap_cons, List.forall_mem_append] at hbody
    -- With or without a marker, the lines of the row are read in its segment.
    obtain ⟨m, hm⟩ : ∃ m, statementsFrom current n (printRows labels current (row :: rows) ++ [[]]) =
        statementsFrom (some row.segment) m
          (row.lines labels ++ (printRows labels (some row.segment) rows ++ [[]])) := by
      rw [printRows_cons]
      by_cases hcurrent : current = some row.segment
      · refine ⟨n, ?_⟩
        rw [if_pos hcurrent, List.nil_append, List.append_assoc, hcurrent]
      · refine ⟨n + 1, ?_⟩
        rw [if_neg hcurrent, List.singleton_append, List.cons_append, List.append_assoc]
        unfold statementsFrom
        rw [readFrom_marker]
    obtain ⟨said, hsaid, hrest⟩ := says_lines (fun _ h => Row.segment_of_mem_pieces h) hbody.1 m
      (printRows labels (some row.segment) rows ++ [[]])
    rw [hm, row.lines_eq, hrest, List.flatMap_cons]
    exact List.rel_append hsaid (ih hbody.2 _ _)

theorem mem_printRows {rows : List Row} {current : Option Segment} {l : Text}
    (h : l ∈ printRows labels current rows) :
    (∃ segment, l = Segment.text segment) ∨
      ∃ piece ∈ rows.flatMap Row.pieces, l = piece.line labels := by
  induction rows generalizing current with
  | nil => exact nomatch h
  | cons row rows ih =>
    rw [printRows_cons, List.mem_append, List.mem_append, row.lines_eq] at h
    obtain h | h | h := h
    · split at h
      · exact nomatch h
      · exact .inl ⟨_, List.eq_of_mem_singleton h⟩
    · obtain ⟨piece, hpiece, rfl⟩ := List.mem_map.1 h
      exact .inr ⟨piece, List.mem_flatMap.2 ⟨row, List.mem_cons_self, hpiece⟩, rfl⟩
    · refine (ih h).imp_right fun ⟨piece, hpiece, hl⟩ => ⟨piece, ?_, hl⟩
      rw [List.flatMap_cons]
      exact List.mem_append_right _ hpiece

/-- The lines of a printed text are those that were printed. -/
theorem lines_printRows {rows : List Row}
    (hbody : ∀ piece ∈ rows.flatMap Row.pieces, Body (piece.body labels))
    (current : Option Segment) :
    lines ((printRows labels current rows).flatMap fun l => l ++ ['\n']) =
      printRows labels current rows ++ [[]] := by
  apply lines_flatMap
  intro l hl
  obtain ⟨segment, rfl⟩ | ⟨piece, hpiece, rfl⟩ := mem_printRows hl
  · cases segment <;> decide
  · have hline := hbody piece hpiece
    exact ⟨notMem_statementLine Row.isLabel_of_mem_label? hline (by decide) (by decide),
      notMem_statementLine Row.isLabel_of_mem_label? hline (by decide) (by decide)⟩

/-- Printed rows are read back, one statement for each piece. -/
theorem says_statements {rows : List Row}
    (hbody : ∀ piece ∈ rows.flatMap Row.pieces, Body (piece.body labels)) :
    List.Forall₂ (Row.Says labels) (rows.flatMap Row.pieces)
      (statements [';'] ((printRows labels none rows).flatMap fun l => l ++ ['\n'])) := by
  unfold statements SourceLine.readAll
  rw [lines_printRows hbody]
  exact says_printRows hbody none 1

end Statements

end Disassembly

end BalancedTernary
