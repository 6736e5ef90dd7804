import BalancedTernary.Proofs.PrintedRows
import BalancedTernary.Proofs.RoundTrip

/-!
# Labels of a disassembly

How the text of a disassembly names addresses. A line falls apart at its colon into a label and an
instruction, and the instruction into words. Read that way, every label stands on one line, the line
of the row at the address in its name, and every operand that is a label has such a line.
-/

namespace BalancedTernary

open Assembly Text

namespace Text

/-- What stands before the colon of a line. -/
def lineLabel? (line : Text) : Option Text := (cut? [':'] line).map Prod.fst

/-- What stands between the words of a line. -/
def isJoint (c : Char) : Bool := isSeparator c || c == '→'

/-- The words of a line behind its label, without the first of them, which is a mnemonic. -/
def lineOperands (line : Text) : List Text :=
  (fields isJoint (((cut? [':'] line).map Prod.snd).getD line)).tail

theorem Token.notMem_isJoint {s : Text} (h : Token s) : ∀ c ∈ s, isJoint c = false := by
  intro c hc
  have harrow : c ≠ '→' := by
    rintro rfl
    exact h.notMem (by decide) hc
  rw [isJoint, h.separates c hc, Bool.false_or, beq_eq_false_iff_ne]
  exact harrow

theorem Token.fields_isJoint {s : Text} (h : Token s) : Text.fields isJoint s = [s] :=
  fields_token h.ne_nil h.notMem_isJoint

theorem fields_isJoint_blanks (n : Nat) (s : Text) :
    fields isJoint (List.replicate n ' ' ++ s) = fields isJoint s := by
  apply fields_append
  intro c hc
  rw [List.eq_of_mem_replicate hc]
  decide

theorem fields_isJoint_join {texts : List Text} (h : ∀ s ∈ texts, Token s) :
    fields isJoint (join [',', ' '] texts) = texts :=
  fields_join (List.cons_ne_nil _ _) (List.all_eq_true.1 (by decide)) fun s hs =>
    ⟨(h s hs).ne_nil, (h s hs).notMem_isJoint⟩

end Text

namespace Disassembly

/-! ## The words of a line -/

theorem fields_mnemonicColumn {m : Text} (hm : Token m) (rest : Text) :
    fields isJoint (mnemonicColumn m rest) = m :: fields isJoint rest := by
  rw [mnemonicColumn_eq, List.replicate_succ, List.cons_append, fields_append_cons _ _ (by decide),
    hm.fields_isJoint, fields_isJoint_blanks, List.singleton_append]

theorem Decoded.fields_text (labels : List Nat) {d : Decoded} (hm : Token d.mnemonic.toList)
    (hdest : d.family.hasDestination = true → 2 ≤ d.arguments.length) :
    fields isJoint (d.text labels) =
      d.mnemonic.toList :: d.arguments.map (Argument.text labels) := by
  have htokens : ∀ s ∈ d.arguments.map (Argument.text labels), Token s :=
    List.forall_mem_map.2 fun a _ => a.token_text labels
  obtain ⟨h, hnil, -⟩ | ⟨h, -, -⟩ | ⟨texts, last, h, hsplit, -, -⟩ := text_cases labels hdest
  · rw [h, hnil, hm.fields_isJoint]
  · rw [h, fields_mnemonicColumn hm, fields_isJoint_join htokens]
  · rw [hsplit, List.forall_mem_append] at htokens
    have hlast := htokens.2 last List.mem_cons_self
    -- The arrow and the blanks around it are joints, like commas.
    rw [h, hsplit, fields_mnemonicColumn hm, List.append_assoc, List.cons_append,
      fields_append_cons _ _ (by decide), fields_isJoint_join htokens.1, List.cons_append,
      fields_cons _ (by decide), List.cons_append, fields_cons _ (by decide), List.nil_append,
      hlast.fields_isJoint]

section Lines

variable {label : Option Label} {body : Text}

theorem colon_notMem (hbody : Body body) : ':' ∉ statementLine none body := by
  rw [statementLine_none, List.mem_append, not_or]
  exact ⟨fun h => absurd (List.eq_of_mem_replicate h) (by decide),
    hbody.notMem (by decide) (by decide)⟩

theorem lineLabel?_statementLine (hlabel : ∀ l ∈ label, IsLabel l) (hbody : Body body) :
    lineLabel? (statementLine label body) = label := by
  unfold lineLabel?
  cases label with
  | none =>
    rw [cut?_of_notMem (colon_notMem hbody)]
    rfl
  | some l =>
    rw [statementLine_some, cut?_append_cons ((hlabel l rfl).token.notMem (by decide))]
    rfl

theorem lineOperands_statementLine (hlabel : ∀ l ∈ label, IsLabel l) (hbody : Body body) :
    lineOperands (statementLine label body) = (fields isJoint body).tail := by
  unfold lineOperands
  cases label with
  | none =>
    rw [cut?_of_notMem (colon_notMem hbody), Option.map_none, Option.getD_none, statementLine_none,
      fields_isJoint_blanks]
  | some l =>
    rw [statementLine_some, cut?_append_cons ((hlabel l rfl).token.notMem (by decide)),
      Option.map_some, Option.getD_some, fields_isJoint_blanks]

end Lines

section Rows

variable {image : Word} {labels : List Nat} {row : Row}

theorem Row.Shows.lineLabel?_line (h : row.Shows image) :
    lineLabel? (row.line labels) = row.label? labels :=
  lineLabel?_statementLine Row.isLabel_of_mem_label? (h.body labels)

theorem Row.Shows.lineOperands_code {a : Nat} {d : Decoded} (h : (Row.code a d).Shows image) :
    lineOperands ((Row.code a d).line labels) = d.arguments.map (Argument.text labels) := by
  obtain ⟨format, c, hd⟩ := exists_recognised h
  unfold Row.line
  rw [lineOperands_statementLine Row.isLabel_of_mem_label? (h.body labels), Row.body,
    d.fields_text labels hd.token_mnemonic hd.two_le_length]
  rfl

theorem Row.Shows.lineOperands_data {a : Nat} {trytes : Word}
    (h : (Row.data a trytes).Shows image) :
    lineOperands ((Row.data a trytes).line labels) = trytes.map fun t => integer t.toInt := by
  unfold Row.line
  rw [lineOperands_statementLine Row.isLabel_of_mem_label? (h.body labels), Row.body, dataText,
    fields_mnemonicColumn token_tryte, fields_isJoint_join (token_values trytes)]
  rfl

/-- A label stands at a row of code and has its address in it. -/
theorem Row.label?_eq_some_iff {l : Label} :
    row.label? labels = some l ↔ ∃ a d, row = .code a d ∧ a ∈ labels ∧ l = labelName a := by
  cases row with
  | code a d =>
    change (if a ∈ labels then some (labelName a) else none) = some l ↔ _
    constructor
    · intro h
      split at h
      · exact ⟨a, d, rfl, by assumption, (Option.some.inj h).symm⟩
      · cases h
    · rintro ⟨a', d', heq, ha, rfl⟩
      obtain ⟨rfl, -⟩ := Row.code.inj heq
      exact if_pos ha
  | data a trytes =>
    constructor
    · intro h
      cases h
    · rintro ⟨a', d', heq, -⟩
      cases heq

end Rows

/-! ## Operands -/

/-- Text that starts as a label does. -/
def IsReference (word : Text) : Prop := "loc_".toList <+: word

theorem IsReference.head? {word : Text} (h : IsReference word) : word.head? = some 'l' := by
  obtain ⟨rest, rfl⟩ := h
  rfl

theorem not_isReference_of_decimalChars {word : Text} (h : ∀ c ∈ word, c ∈ decimalChars) :
    ¬ IsReference word := by
  intro hword
  exact absurd (h 'l' (List.mem_of_mem_head? hword.head?)) (by decide)

theorem not_isReference_bracket {s : Text} (hs : ¬ IsReference s) (memory : Bool) :
    ¬ IsReference (Argument.bracket memory s) := by
  cases memory with
  | true =>
    intro h
    exact absurd (Option.some.inj h.head?) (by decide)
  | false => exact hs

/-- Only branches are printed as labels. -/
theorem Argument.exists_branch_of_isReference {labels : List Nat} {argument : Argument}
    (h : IsReference (argument.text labels)) :
    ∃ (v : Int) (b : Nat), argument.value = .branch v b ∧ b ∈ labels ∧
      argument.text labels = labelName b := by
  unfold text at h ⊢
  cases hvalue : argument.value with
  | register r =>
    rw [hvalue] at h
    refine absurd h (not_isReference_bracket (fun hr => ?_) _)
    have hhead := hr.head?
    cases r <;> exact absurd hhead (by decide)
  | unknown =>
    rw [hvalue] at h
    refine absurd h (not_isReference_bracket (fun hr => ?_) _)
    exact absurd hr.head? (by decide)
  | immediate n =>
    rw [hvalue] at h
    exact absurd h (not_isReference_bracket
      (not_isReference_of_decimalChars fun _ => mem_decimalChars_of_mem_integer) _)
  | branch v target =>
    rw [hvalue] at h
    dsimp only at h ⊢
    split at h
    · rename_i hlabel
      rw [if_pos hlabel]
      exact ⟨v, target.toNat, by rw [Int.toNat_of_nonneg hlabel.1], hlabel.2, rfl⟩
    · exact absurd h (not_isReference_bracket
        (not_isReference_of_decimalChars fun _ => mem_decimalChars_of_mem_signedInteger) _)

section Branches

variable {image : Word} {a : Nat} {d : Decoded} {i : Nat} {argument : Argument} {v target : Int}

/-- Branches are printed without brackets. -/
theorem InstructionAt.memory_of_branch (h : InstructionAt image a d)
    (hi : d.arguments[i]? = some argument) (hvalue : argument.value = .branch v target) :
    argument.memory = false := by
  obtain ⟨format, c, hd⟩ := exists_recognised h.2
  have hjump := (h.jump_of_branch (List.mem_of_getElem? hi) hvalue).1
  exact hd.memory_of_isRelative hi (Family.isRelative_iff.2 hjump)

/-- Where a row of code branches to a row of code, that row has a label. -/
theorem mem_labelAddresses_of_branch {b : Nat} {d' : Decoded} (ha : Row.code a d ∈ rows image)
    (hb : Row.code b d' ∈ rows image) (hmem : argument ∈ d.arguments)
    (hvalue : argument.value = .branch v b) : b ∈ labelAddresses image := by
  obtain ⟨hmarked, hd⟩ := spans_of_mem_rows ha
  obtain ⟨-, hd'⟩ := spans_of_mem_rows hb
  obtain ⟨hjump, htarget⟩ := hd.jump_of_branch hmem hvalue
  have hbranch : b ∈ branchTargets (cells image) :=
    mem_branchTargets_iff.2 ⟨a, d, hmarked, hd, hjump, hd'.1, argument, hmem, v, hvalue, htarget⟩
  refine List.mem_filter.2 ⟨List.mem_filterMap.2 ⟨_, hb, rfl⟩, ?_⟩
  exact List.contains_iff_mem.2 hbranch

end Branches

/-! ## Consistency -/

/-- The lines of the rows of a disassembly. -/
def rowLines (image : Word) : List Text := (Text.lines (disassemble image)).filter isRowLine

section Image

variable {image : Word}

theorem body_of_mem_pieces {piece : Row} (h : piece ∈ pieces image) :
    Body (piece.body (labelAddresses image)) :=
  ((tiles_pieces image).shows h).body _

theorem lines_disassemble (image : Word) :
    Text.lines (disassemble image) =
      printRows (labelAddresses image) none (rows image) ++ [[]] := by
  rw [disassemble_eq, lines_printRows fun piece => body_of_mem_pieces]

theorem rowLines_eq (image : Word) :
    rowLines image = (pieces image).map (Row.line (labelAddresses image)) := by
  rw [rowLines, lines_disassemble, List.filter_append,
    filter_printRows fun piece => body_of_mem_pieces, pieces, List.map_flatMap,
    ← funext (Row.lines_eq (labelAddresses image))]
  exact List.append_nil _

theorem lineLabel?_eq_none_of_marker {line : Text} (hline : line ∈ Text.lines (disassemble image))
    (hrow : isRowLine line = false) : lineLabel? line = none := by
  rw [lines_disassemble, List.mem_append] at hline
  rcases hline with hline | hline
  · rcases mem_printRows hline with ⟨segment, rfl⟩ | ⟨piece, hpiece, rfl⟩
    · cases segment <;> decide
    · rw [isRowLine_line (body_of_mem_pieces hpiece)] at hrow
      cases hrow
  · rw [List.eq_of_mem_singleton hline]
    rfl

theorem instructionAt_of_mem_pieces {a : Nat} {d : Decoded} (h : Row.code a d ∈ pieces image) :
    InstructionAt image a d :=
  (spans_of_mem_rows (Row.code_mem_pieces.1 h)).2

end Image

/-- The `k`-th of the rows of a disassembly, and its line. -/
structure Prints (image : Word) (k : Nat) (row : Row) (line : Text) : Prop where
  row : (pieces image)[k]? = some row
  line : (rowLines image)[k]? = some line

namespace Prints

variable {image : Word} {k : Nat} {row : Row} {line l : Text}

theorem mem (h : Prints image k row line) : row ∈ pieces image := List.mem_of_getElem? h.row

theorem shows (h : Prints image k row line) : row.Shows image := (tiles_pieces image).shows h.mem

theorem line_eq (h : Prints image k row line) : line = row.line (labelAddresses image) := by
  have hline := h.line
  rw [rowLines_eq, List.getElem?_map, h.row] at hline
  exact (Option.some.inj hline).symm

theorem of_mem (h : row ∈ pieces image) :
    ∃ k, Prints image k row (row.line (labelAddresses image)) := by
  obtain ⟨k, hk⟩ := List.mem_iff_getElem?.1 h
  refine ⟨k, hk, ?_⟩
  rw [rowLines_eq, List.getElem?_map, hk]
  rfl

theorem lineLabel?_eq_some_iff (h : Prints image k row line) :
    lineLabel? line = some l ↔
      ∃ a d, row = .code a d ∧ a ∈ labelAddresses image ∧ l = labelName a := by
  rw [h.line_eq, h.shows.lineLabel?_line, Row.label?_eq_some_iff]

/-- Rows at one address are the same row. -/
theorem index_unique {j : Nat} {row' : Row} {line' : Text} (h : Prints image k row line)
    (h' : Prints image j row' line') (heq : row.address = row'.address) : k = j := by
  have hpairwise := List.pairwise_iff_getElem.1 (tiles_pieces image).pairwise_address
  obtain ⟨hltk, hk⟩ := List.getElem?_eq_some_iff.1 h.row
  obtain ⟨hltj, hj⟩ := List.getElem?_eq_some_iff.1 h'.row
  rw [← hk, ← hj] at heq
  rcases Nat.lt_trichotomy k j with hlt | heq' | hlt
  · exact absurd heq (Nat.ne_of_lt (hpairwise k j hltk hltj hlt))
  · exact heq'
  · exact absurd heq.symm (Nat.ne_of_lt (hpairwise j k hltj hltk hlt))

theorem label_unique {j : Nat} {row' : Row} {line' : Text} (h : Prints image k row line)
    (h' : Prints image j row' line') (hl : lineLabel? line = some l)
    (hl' : lineLabel? line' = some l) : k = j := by
  obtain ⟨a, d, rfl, -, rfl⟩ := h.lineLabel?_eq_some_iff.1 hl
  obtain ⟨b, d', rfl, -, heq⟩ := h'.lineLabel?_eq_some_iff.1 hl'
  exact h.index_unique h' (labelName_injective heq)

/-- A labelled address has a row with its label. -/
theorem exists_of_mem_labelAddresses {b : Nat} (hb : b ∈ labelAddresses image) :
    ∃ j d line, Prints image j (.code b d) line ∧ lineLabel? line = some (labelName b) := by
  obtain ⟨d, hd⟩ := exists_code_of_mem_labelAddresses hb
  obtain ⟨j, hj⟩ := of_mem (Row.code_mem_pieces.2 hd)
  exact ⟨j, d, _, hj, hj.lineLabel?_eq_some_iff.2 ⟨b, d, rfl, hb, rfl⟩⟩

/-- An operand that starts as a label is a branch of the row, to an address with a label. -/
theorem exists_branch {i : Nat} {word : Text} (h : Prints image k row line)
    (hword : (lineOperands line)[i]? = some word) (href : IsReference word) :
    ∃ (a : Nat) (d : Decoded) (argument : Argument) (v : Int) (b : Nat), row = .code a d ∧
      d.arguments[i]? = some argument ∧ argument.value = .branch v b ∧
        b ∈ labelAddresses image ∧ word = labelName b := by
  rw [h.line_eq] at hword
  cases row with
  | code a d =>
    rw [h.shows.lineOperands_code, List.getElem?_map, Option.map_eq_some_iff] at hword
    obtain ⟨argument, hi, rfl⟩ := hword
    obtain ⟨v, b, hvalue, hb, htext⟩ := Argument.exists_branch_of_isReference href
    exact ⟨a, d, argument, v, b, rfl, hi, hvalue, hb, htext⟩
  | data a trytes =>
    rw [h.shows.lineOperands_data, List.getElem?_map, Option.map_eq_some_iff] at hword
    obtain ⟨t, -, rfl⟩ := hword
    exact absurd href (not_isReference_of_decimalChars fun _ => mem_decimalChars_of_mem_integer)

/-- A branch is printed as the label of the row that it leads to, or else as its displacement. -/
theorem operand_of_branch {i a : Nat} {d : Decoded} {argument : Argument} {v target : Int}
    (h : Prints image k (.code a d) line) (hi : d.arguments[i]? = some argument)
    (hvalue : argument.value = .branch v target) :
    (lineOperands line)[i]? = some (if 0 ≤ target ∧ target.toNat ∈ labelAddresses image
      then labelName target.toNat else signedInteger v) := by
  have hmemory := (instructionAt_of_mem_pieces h.mem).memory_of_branch hi hvalue
  rw [h.line_eq, h.shows.lineOperands_code, List.getElem?_map, hi, Option.map_some, Argument.text,
    hvalue, hmemory]
  rfl

end Prints

/-- The lines of a disassembly agree about labels: the rows that they print tile the image, and the
name of a row is found where it should be and nowhere else. -/
structure LabelsConsistent (image : Word) : Prop where
  tiles : Tiles image 0 (pieces image)
  length_rowLines : (rowLines image).length = (pieces image).length
  /-- Section markers have no label. -/
  markers : ∀ line ∈ Text.lines (disassemble image), isRowLine line = false → lineLabel? line = none
  /-- Labels can be read back, and stand at rows of code. -/
  labels : ∀ {k row line l}, Prints image k row line → lineLabel? line = some l →
    Label.isName l = true ∧ Register.ofName? l = none ∧ ∃ a d, row = .code a d ∧ l = labelName a
  once : ∀ {i j row row' line line' l}, Prints image i row line → Prints image j row' line' →
    lineLabel? line = some l → lineLabel? line' = some l → i = j
  /-- An operand that starts as a label does is the label of the row to which the row branches, and
  no other line has that label. -/
  references : ∀ {k row line word} {i : Nat}, Prints image k row line →
    (lineOperands line)[i]? = some word → IsReference word →
      ∃ (a : Nat) (d : Decoded) (argument : Argument) (v : Int) (b : Nat), row = .code a d ∧
        d.arguments[i]? = some argument ∧ argument.value = .branch v b ∧
        (b : Int) = a + d.length + v ∧ word = labelName b ∧
        ∃ j d' target, Prints image j (.code b d') target ∧ lineLabel? target = some word ∧
          ∀ j' row' line', Prints image j' row' line' → lineLabel? line' = some word → j' = j
  /-- A branch to a row of code is printed as a label, and any other as a signed displacement. -/
  branches : ∀ {k a d line argument v target} {i : Nat}, Prints image k (.code a d) line →
    d.arguments[i]? = some argument → argument.value = .branch v target →
      target = a + d.length + v ∧
      (∀ (b : Nat) (d' : Decoded), target = b → Row.code b d' ∈ pieces image →
        (lineOperands line)[i]? = some (labelName b)) ∧
      ((∀ (b : Nat) (d' : Decoded), target = b → Row.code b d' ∉ pieces image) →
        (lineOperands line)[i]? = some (signedInteger v))

theorem labels_consistent (image : Word) : LabelsConsistent image where
  tiles := tiles_pieces image
  length_rowLines := by rw [rowLines_eq, List.length_map]
  markers := fun line hline hrow => lineLabel?_eq_none_of_marker hline hrow
  labels := by
    intro k row line l h hl
    obtain ⟨a, d, hrow, -, rfl⟩ := h.lineLabel?_eq_some_iff.1 hl
    exact ⟨isName_labelName a, ofName?_labelName a, a, d, hrow, rfl⟩
  once := fun h h' hl hl' => h.label_unique h' hl hl'
  references := by
    intro k row line word i h hword href
    obtain ⟨a, d, argument, v, b, rfl, hi, hvalue, hb, rfl⟩ := h.exists_branch hword href
    obtain ⟨-, htarget⟩ := (instructionAt_of_mem_pieces h.mem).jump_of_branch
      (List.mem_of_getElem? hi) hvalue
    obtain ⟨j, d', target, hj, hl⟩ := Prints.exists_of_mem_labelAddresses hb
    exact ⟨a, d, argument, v, b, rfl, hi, hvalue, htarget, rfl, j, d', target, hj, hl,
      fun j' row' line' hj' hl' => hj'.label_unique hj hl' hl⟩
  branches := by
    intro k a d line argument v target i h hi hvalue
    obtain ⟨-, htarget⟩ := (instructionAt_of_mem_pieces h.mem).jump_of_branch
      (List.mem_of_getElem? hi) hvalue
    have hoperand := h.operand_of_branch hi hvalue
    refine ⟨htarget, ?_, fun hnone => ?_⟩
    · rintro b d' rfl hb
      have hlabel : b ∈ labelAddresses image := mem_labelAddresses_of_branch
        (Row.code_mem_pieces.1 h.mem) (Row.code_mem_pieces.1 hb) (List.mem_of_getElem? hi) hvalue
      rw [hoperand, if_pos ⟨Int.natCast_nonneg b, by rwa [Int.toNat_natCast]⟩, Int.toNat_natCast]
    · -- A label would stand at a row of code.
      rw [hoperand, if_neg]
      rintro ⟨hnonneg, hlabel⟩
      obtain ⟨d', hd'⟩ := exists_code_of_mem_labelAddresses hlabel
      exact hnone target.toNat d' (Int.toNat_of_nonneg hnonneg).symm (Row.code_mem_pieces.2 hd')

end Disassembly

end BalancedTernary
