import BalancedTernary.Proofs.Tokens
import Mathlib.Data.List.TakeWhile

/-!
# Renderings of instructions

There are many ways to write one instruction: the mnemonic in any case, runs of commas and white
space around the operands, and two spellings of the destination mark. An instruction is read from
these texts and from no others. What makes this work is that no token holds a character of the mark
or of a run, so that the places where a text is cut are those where it was put together.
-/

namespace BalancedTernary.Assembly

open Text

/-! ## Runs of separators -/

theorem IsRun.notMem {s : Text} {c : Char} (h : IsRun s) (hc : isSeparator c = false) : c ∉ s := by
  intro hmem
  rw [h c hmem] at hc
  cases hc

theorem IsRun.head {s : Text} (h : IsRun s) : ∀ c ∈ s.head?, isSeparator c = true :=
  fun c hc => h c (List.mem_of_mem_head? hc)

theorem isRun_space : IsRun [' '] := List.forall_mem_singleton.2 (by decide)

/-- Texts with a run of separators in front of each. -/
inductive Spaced : List Text → Text → Prop where
  | nil : Spaced [] []
  | cons {s gap rest : Text} {texts : List Text} (hne : gap ≠ []) (hgap : IsRun gap)
      (h : Spaced texts rest) : Spaced (s :: texts) (gap ++ (s ++ rest))

namespace Spaced

variable {texts : List Text} {s tail : Text}

theorem head_append (h : Spaced texts s) (htail : IsRun tail) :
    ∀ c ∈ (s ++ tail).head?, isSeparator c = true := by
  cases h with
  | nil => exact htail.head
  | cons hne hgap h =>
    rw [List.append_assoc, List.head?_append_of_ne_nil _ hne]
    exact hgap.head

theorem fields_eq (h : Spaced texts s) (htexts : ∀ t ∈ texts, Unbroken t) (htail : IsRun tail) :
    fields isSeparator (s ++ tail) = texts := by
  induction h with
  | nil => exact fields_eq_nil htail
  | cons hne hgap h ih =>
    rw [List.forall_mem_cons] at htexts
    rw [List.append_assoc, fields_append hgap, List.append_assoc,
      fields_append_of_head _ (h.head_append htail), htexts.1.fields_eq, ih htexts.2,
      List.singleton_append]

/-- The characters of a destination mark are neither in the texts nor between them. -/
theorem notMem {c : Char} (h : Spaced texts s) (htexts : ∀ t ∈ texts, Unbroken t)
    (hc : c ∈ strangers) (hsep : isSeparator c = false) : c ∉ s := by
  induction h with
  | nil => exact List.not_mem_nil
  | cons hne hgap h ih =>
    rw [List.forall_mem_cons] at htexts
    rw [List.mem_append, List.mem_append, not_or, not_or]
    exact ⟨hgap.notMem hsep, htexts.1.notMem c hc, ih htexts.2⟩

theorem join {gap : Text} (hne : gap ≠ []) (hgap : IsRun gap) (htexts : texts ≠ []) :
    Spaced texts (gap ++ Text.join [',', ' '] texts) := by
  induction texts generalizing gap with
  | nil => exact absurd rfl htexts
  | cons t texts ih =>
    cases texts with
    | nil =>
      have hspaced : Spaced [t] (gap ++ (t ++ [])) := .cons hne hgap .nil
      rw [List.append_nil] at hspaced
      rwa [join_singleton]
    | cons u texts =>
      rw [join_cons_cons, List.append_assoc]
      exact .cons hne hgap (ih (by decide) (List.all_eq_true.1 (by decide)) (List.cons_ne_nil _ _))

end Spaced

theorem exists_span (p : Char → Bool) (s : Text) :
    ∃ t u, s = t ++ u ∧ (∀ c ∈ t, p c = true) ∧ ∀ c ∈ u.head?, p c = false := by
  refine ⟨s.takeWhile p, s.dropWhile p, List.takeWhile_append_dropWhile.symm, ?_, ?_⟩
  · exact fun c hc => List.mem_takeWhile_imp hc
  · intro c hc
    have hnot := List.head?_dropWhile_not p s
    rw [hc] at hnot
    exact hnot

/-- A text that starts with a separator is made of its fields and of the runs around them. -/
theorem exists_spaced {s : Text} (hs : ∀ c ∈ s.head?, isSeparator c = true) :
    ∃ front tail, s = front ++ tail ∧ Spaced (fields isSeparator s) front ∧ IsRun tail := by
  -- Each step takes off a run and the field behind it, so the induction is on the length.
  induction hlength : s.length using Nat.strong_induction_on generalizing s with
  | _ n ih =>
    obtain ⟨gap, rest, rfl, hgap, hrest⟩ := exists_span isSeparator s
    obtain ⟨word, more, rfl, hword, hmore⟩ := exists_span (fun c => !isSeparator c) rest
    have hseparates : ∀ c ∈ word, isSeparator c = false := by simpa using hword
    have hmore : ∀ c ∈ more.head?, isSeparator c = true := by simpa using hmore
    cases word with
    | nil =>
      -- What is left starts neither with a separator nor with anything else.
      obtain rfl : more = [] := by
        cases more with
        | nil => rfl
        | cons c more =>
          have hc := hmore c rfl
          rw [hrest c rfl] at hc
          cases hc
      rw [List.append_nil, List.append_nil]
      refine ⟨[], gap, rfl, ?_, hgap⟩
      rw [fields_eq_nil hgap]
      exact .nil
    | cons c word =>
      have hne : gap ≠ [] := by
        rintro rfl
        have hc := hs c rfl
        rw [hseparates c List.mem_cons_self] at hc
        cases hc
      have hshorter : more.length < n := by
        simp only [List.length_append, List.length_cons] at hlength
        omega
      obtain ⟨front, tail, heq, hfront, htail⟩ := ih more.length hshorter hmore rfl
      refine ⟨gap ++ (c :: word ++ front), tail, ?_, ?_, htail⟩
      · rw [heq, List.append_assoc, List.append_assoc]
      · rw [fields_append hgap, fields_append_of_head _ hmore,
          fields_token (List.cons_ne_nil c word) hseparates, List.singleton_append]
        exact .cons hne hgap hfront

namespace Instruction

/-! ## Destination marks -/

/-- The two spellings of the destination mark. -/
def marks : List Text := [[arrow], ['-', '>']]

theorem unifyArrows_cons {c : Char} {s : Text} (h : s.head? ≠ some '>') :
    unifyArrows (c :: s) = c :: unifyArrows s := by
  rw [unifyArrows]
  rintro t - rfl
  exact h rfl

theorem unifyArrows_of_notMem {s : Text} (h : '>' ∉ s) : unifyArrows s = s := by
  fun_induction unifyArrows s with
  | case1 s ih => exact absurd (List.mem_cons_of_mem _ List.mem_cons_self) h
  | case2 c s hne ih =>
    rw [List.mem_cons, not_or] at h
    rw [ih h.2]
  | case3 => rfl

/-- A mark is found behind any text, also one that ends in a hyphen. -/
theorem unifyArrows_append_mark {s mark : Text} (hs : '>' ∉ s) (hmark : mark ∈ marks) (t : Text) :
    unifyArrows (s ++ (mark ++ t)) = s ++ arrow :: unifyArrows t := by
  obtain ⟨hne, hhead, hunify⟩ : mark ≠ [] ∧ mark.head? ≠ some '>' ∧
      unifyArrows (mark ++ t) = arrow :: unifyArrows t := by
    obtain rfl | hmark := List.mem_cons.1 hmark
    · exact ⟨by decide, by decide, rfl⟩
    · rw [List.mem_singleton.1 hmark]
      exact ⟨by decide, by decide, rfl⟩
  induction s with
  | nil => exact hunify
  | cons c s ih =>
    rw [List.mem_cons, not_or] at hs
    rw [List.cons_append, unifyArrows_cons, ih hs.2, List.cons_append]
    -- Behind `c` comes more of `s` or a whole mark, but not the second half of one.
    cases s with
    | nil =>
      rw [List.nil_append, List.head?_append_of_ne_nil _ hne]
      exact hhead
    | cons d s =>
      intro h
      rw [List.mem_cons, not_or] at hs
      exact hs.2.1 (Option.some.inj h).symm

/-- Where a mark is found, it was written in one of its spellings. -/
theorem exists_mark_of_unifyArrows {s t u : Text} (ht : arrow ∉ t)
    (h : unifyArrows s = t ++ arrow :: u) :
    ∃ mark ∈ marks, ∃ rest, s = t ++ (mark ++ rest) ∧ unifyArrows rest = u := by
  fun_induction unifyArrows s generalizing t with
  | case1 s ih =>
    cases t with
    | nil => exact ⟨['-', '>'], by decide, s, rfl, (List.cons.inj h).2⟩
    | cons c t =>
      -- The mark is found at once, but `t` has none.
      rw [← (List.cons.inj h).1] at ht
      exact absurd List.mem_cons_self ht
  | case2 c s hne ih =>
    cases t with
    | nil =>
      obtain ⟨rfl, hs⟩ := List.cons.inj h
      exact ⟨[arrow], by decide, s, rfl, hs⟩
    | cons d t =>
      obtain ⟨rfl, hs⟩ := List.cons.inj h
      rw [List.mem_cons, not_or] at ht
      obtain ⟨mark, hmark, rest, rfl, hrest⟩ := ih ht.2 hs
      exact ⟨mark, hmark, rest, rfl, hrest⟩
  | case3 => exact absurd h.symm (List.append_ne_nil_of_right_ne_nil t (List.cons_ne_nil arrow u))

/-- Where no mark is found, none was written. -/
theorem eq_of_arrow_notMem {s : Text} (h : arrow ∉ unifyArrows s) : unifyArrows s = s := by
  fun_induction unifyArrows s with
  | case1 s ih => exact absurd List.mem_cons_self h
  | case2 c s hne ih =>
    rw [List.mem_cons, not_or] at h
    rw [ih h.2]
  | case3 => rfl

/-! ## Reading -/

theorem inMnemonic_of_unbroken {m : Text} (h : Unbroken m) : ∀ c ∈ m, inMnemonic c = true := by
  intro c hc
  have hblank : isBlank c = false := (Bool.or_eq_false_iff.1 (h.separates c hc)).2
  unfold inMnemonic
  rw [hblank, Bool.not_false, Bool.true_and, bne_iff_ne]
  rintro rfl
  exact h.notMem arrow (by decide) hc

theorem inMnemonic_of_isBlank {c : Char} (h : isBlank c = true) : inMnemonic c = false := by
  unfold inMnemonic
  rw [h, Bool.not_true, Bool.false_and]

theorem isSeparator_of_isBlank {c : Char} (h : isBlank c = true) : isSeparator c = true :=
  Bool.or_eq_true_iff.2 (.inr h)

/-- A mnemonic ends at white space or at a mark. -/
theorem span_mnemonic {m rest : Text} (hm : Unbroken m)
    (hrest : ∀ c ∈ rest.head?, inMnemonic c = false) :
    (m ++ rest).takeWhile inMnemonic = m ∧ (m ++ rest).dropWhile inMnemonic = rest := by
  have hin := inMnemonic_of_unbroken hm
  rw [List.takeWhile_append_of_pos hin, List.dropWhile_append_of_pos hin, dropWhile_eq_self hrest]
  refine ⟨?_, rfl⟩
  cases rest with
  | nil => exact List.append_nil m
  | cons c rest =>
    rw [List.takeWhile_cons_of_neg (by rw [hrest c rfl]; exact Bool.false_ne_true), List.append_nil]

section Reading

variable {text m rest s gap mark lead last tail : Text} {family : Family} {v : Variant}
  {texts : List Text} {hasDestination : Bool}

theorem parse_of_unifyArrows (hm : Unbroken m)
    (hlookup : Family.lookup? m = some (family, some v)) (htext : unifyArrows text = m ++ rest)
    (hrest : ∀ c ∈ rest.head?, inMnemonic c = false)
    (htexts : operandTexts? rest = some (texts, hasDestination)) :
    parse text = texts.mapM Operand.parse >>= fun operands =>
      .ok ⟨Text.lower m, family, v, operands, hasDestination⟩ := by
  unfold parse
  rw [htext]
  dsimp only
  rw [(span_mnemonic hm hrest).1, (span_mnemonic hm hrest).2, hlookup]
  dsimp only
  rw [htexts]
  rfl

/-- Reading a text without a mark. -/
theorem parse_sources (hm : Unbroken m) (hlookup : Family.lookup? m = some (family, some v))
    (hs : Spaced texts s) (htexts : ∀ t ∈ texts, Unbroken t) (htail : IsRun tail)
    (hblank : ∀ c ∈ (s ++ tail).head?, isBlank c = true) :
    parse (m ++ (s ++ tail)) = texts.mapM Operand.parse >>= fun operands =>
      .ok ⟨Text.lower m, family, v, operands, false⟩ := by
  have hmark : '>' ∉ m ++ (s ++ tail) := by
    rw [List.mem_append, List.mem_append, not_or, not_or]
    exact ⟨hm.notMem _ (by decide), hs.notMem htexts (by decide) (by decide),
      htail.notMem (by decide)⟩
  have harrow : arrow ∉ s ++ tail := by
    rw [List.mem_append, not_or]
    exact ⟨hs.notMem htexts (by decide) (by decide), htail.notMem (by decide)⟩
  refine parse_of_unifyArrows hm hlookup (unifyArrows_of_notMem hmark)
    (fun c hc => inMnemonic_of_isBlank (hblank c hc)) ?_
  unfold operandTexts?
  rw [cut?_of_notMem harrow, hs.fields_eq htexts htail]

/-- Reading a text with a mark. -/
theorem parse_destination (hm : Unbroken m)
    (hlookup : Family.lookup? m = some (family, some v)) (hs : Spaced texts s)
    (htexts : ∀ t ∈ texts, Unbroken t) (hgap : IsRun gap) (hmark : mark ∈ marks)
    (hlead : IsRun lead) (hlast : Unbroken last) (htail : IsRun tail)
    (hblank : ∀ c ∈ (s ++ gap).head?, isBlank c = true) :
    parse (m ++ (s ++ gap) ++ (mark ++ (lead ++ (last ++ tail)))) =
      (texts ++ [last]).mapM Operand.parse >>= fun operands =>
        .ok ⟨Text.lower m, family, v, operands, true⟩ := by
  -- The mark that is found is the one that was written: there is no other `>` on either side.
  have hbefore : '>' ∉ m ++ (s ++ gap) := by
    rw [List.mem_append, List.mem_append, not_or, not_or]
    exact ⟨hm.notMem _ (by decide), hs.notMem htexts (by decide) (by decide),
      hgap.notMem (by decide)⟩
  have hafter : '>' ∉ lead ++ (last ++ tail) := by
    rw [List.mem_append, List.mem_append, not_or, not_or]
    exact ⟨hlead.notMem (by decide), hlast.notMem _ (by decide), htail.notMem (by decide)⟩
  have htext : unifyArrows (m ++ (s ++ gap) ++ (mark ++ (lead ++ (last ++ tail)))) =
      m ++ (s ++ gap ++ arrow :: (lead ++ (last ++ tail))) := by
    rw [unifyArrows_append_mark hbefore hmark, unifyArrows_of_notMem hafter, List.append_assoc]
  have harrow : arrow ∉ s ++ gap := by
    rw [List.mem_append, not_or]
    exact ⟨hs.notMem htexts (by decide) (by decide), hgap.notMem (by decide)⟩
  refine parse_of_unifyArrows hm hlookup htext ?_ ?_
  · cases hhead : s ++ gap with
    | nil =>
      -- The mark stands right behind the mnemonic and ends it.
      intro c hc
      rw [← Option.some.inj hc]
      decide
    | cons d t =>
      intro c hc
      rw [hhead] at hblank
      exact inMnemonic_of_isBlank (hblank c hc)
  · have hfields : fields isSeparator (lead ++ (last ++ tail)) = [last] := by
      rw [fields_append hlead, fields_append_of_head _ htail.head, hlast.fields_eq,
        fields_eq_nil htail, List.append_nil]
    unfold operandTexts?
    rw [cut?_append_cons harrow]
    dsimp only
    rw [hfields, hs.fields_eq htexts hgap]

end Reading

/-! ## Renderings -/

/-- What is known of an instruction that was read. -/
structure WellFormed (i : Instruction) : Prop where
  mnemonic : (Family.all.find? fun f => f.owns i.mnemonic).map
    (fun f => (f, f.variant? i.mnemonic)) = some (i.family, some i.variant)
  operands : ∀ o ∈ i.operands, Operand.parse o.text = .ok o
  separates : ∀ o ∈ i.operands, ∀ c ∈ o.text, isSeparator c = false

/-- The texts that an instruction can be written as. The first run after the mnemonic starts with
white space, unless there is none: a comma there would belong to the mnemonic. -/
inductive Rendered (i : Instruction) : Text → Prop where
  | sources {m s tail : Text} (hm : Text.lower m = i.mnemonic) (hdest : i.hasDestination = false)
      (hs : Spaced (i.operands.map Operand.text) s) (htail : IsRun tail)
      (hblank : ∀ c ∈ (s ++ tail).head?, isBlank c = true) : Rendered i (m ++ (s ++ tail))
  | destination {m s gap mark lead tail : Text} {operands : List Operand} {last : Operand}
      (hm : Text.lower m = i.mnemonic) (hdest : i.hasDestination = true)
      (hoperands : i.operands = operands ++ [last])
      (hs : Spaced (operands.map Operand.text) s) (hgap : IsRun gap) (hmark : mark ∈ marks)
      (hlead : IsRun lead) (htail : IsRun tail)
      (hblank : ∀ c ∈ (s ++ gap).head?, isBlank c = true) :
      Rendered i (m ++ (s ++ gap) ++ (mark ++ (lead ++ (last.text ++ tail))))

section Renderings

variable {i : Instruction} {t : Text}

theorem text_of_parse {s : Text} {o : Operand} (h : Operand.parse s = .ok o) : o.text = s := by
  unfold Operand.parse at h
  split at h
  · cases h
  · rw [← Except.ok.inj h]

theorem texts_of_parse {texts : List Text} {operands : List Operand}
    (h : List.Forall₂ (fun s o => Operand.parse s = .ok o) texts operands) :
    texts = operands.map Operand.text := by
  rw [← List.forall₂_eq_eq_eq, List.forall₂_map_right_iff]
  exact h.imp fun s o ho => (text_of_parse ho).symm

/-- The texts of operands are fields. -/
theorem separates_of_operandTexts? {rest : Text} {texts : List Text} {hasDestination : Bool}
    (h : operandTexts? rest = some (texts, hasDestination)) {s : Text} (hs : s ∈ texts) :
    ∀ c ∈ s, isSeparator c = false := by
  unfold operandTexts? at h
  split at h
  · rw [← (Prod.mk.inj (Option.some.inj h)).1] at hs
    exact separates_of_mem_fields hs
  · rename_i sources destination _
    split at h
    · rename_i d hd
      rw [← (Prod.mk.inj (Option.some.inj h)).1, List.mem_append, ← hd] at hs
      exact hs.elim separates_of_mem_fields separates_of_mem_fields
    · cases h

namespace WellFormed

theorem of_parse (h : parse t = .ok i) : i.WellFormed := by
  obtain ⟨-, -, texts, htexts, hoperands⟩ := parse_eq_ok_iff.1 h
  refine ⟨find?_of_parse h, ?_, ?_⟩
  · intro o ho
    obtain ⟨s, -, hs⟩ := Outcome.exists_of_mem_right hoperands ho
    rw [text_of_parse hs]
    exact hs
  · intro o ho
    obtain ⟨s, hmem, hs⟩ := Outcome.exists_of_mem_right hoperands ho
    rw [text_of_parse hs]
    exact separates_of_operandTexts? htexts hmem

/-- The mnemonic is one of the table, where all are in lower case. -/
theorem token_mnemonic (h : i.WellFormed) :
    Token i.mnemonic ∧ Text.lower i.mnemonic = i.mnemonic := by
  obtain ⟨f, -, hf⟩ := Option.map_eq_some_iff.1 h.mnemonic
  obtain ⟨p, hp, hname, -⟩ := Family.mem_variants_of_variant? (Prod.mk.inj hf).2
  rw [← hname]
  exact Family.token_of_mem_variants hp

theorem unbroken (h : i.WellFormed) : ∀ s ∈ i.operands.map Operand.text, Unbroken s :=
  List.forall_mem_map.2 fun o ho => unbroken_of_parse (h.separates o ho) (h.operands o ho)

theorem mapM_parse (h : i.WellFormed) :
    (i.operands.map Operand.text).mapM Operand.parse = .ok i.operands := by
  rw [Outcome.mapM_eq_ok, List.forall₂_map_left_iff, List.forall₂_same]
  exact h.operands

theorem parse_of_rendered (h : i.WellFormed) (ht : i.Rendered t) : parse t = .ok i := by
  have hunbroken {m : Text} (hm : Text.lower m = i.mnemonic) : Unbroken m :=
    .of_lower (hm ▸ .of_token h.token_mnemonic.1)
  have hlookup {m : Text} (hm : Text.lower m = i.mnemonic) :
      Family.lookup? m = some (i.family, some i.variant) := by
    unfold Family.lookup?
    rw [hm]
    exact h.mnemonic
  cases ht with
  | sources hm hdest hs htail hblank =>
    rw [parse_sources (hunbroken hm) (hlookup hm) hs h.unbroken htail hblank, h.mapM_parse, hm,
      ← hdest]
    rfl
  | destination hm hdest hoperands hs hgap hmark hlead htail hblank =>
    have htexts := h.unbroken
    rw [hoperands, List.map_append, List.forall_mem_append] at htexts
    rw [parse_destination (hunbroken hm) (hlookup hm) hs htexts.1 hgap hmark hlead
      (htexts.2 _ List.mem_cons_self) htail hblank, ← List.map_singleton, ← List.map_append,
      ← hoperands, h.mapM_parse, hm, ← hdest]
    rfl

end WellFormed

/-- One field, with the runs around it. -/
theorem exists_runs_of_fields {s d : Text} (h : fields isSeparator s = [d]) :
    ∃ lead tail, s = lead ++ (d ++ tail) ∧ IsRun lead ∧ IsRun tail := by
  -- With a space in front of it, the text starts with a separator in any case.
  have hspace : isSeparator ' ' = true := by decide
  obtain ⟨front, tail, hsplit, hfront, htail⟩ := exists_spaced (forall_mem_head_cons hspace s)
  rw [fields_cons s hspace, h] at hfront
  cases hfront with
  | cons hne hgap hnil =>
    cases hnil
    rename_i gap
    cases gap with
    | nil => exact absurd rfl hne
    | cons c gap =>
      rw [List.append_nil, List.append_assoc, List.cons_append] at hsplit
      exact ⟨gap, tail, (List.cons.inj hsplit).2, (List.forall_mem_cons.1 hgap).2, htail⟩

/-- Where a text that is read is cut: behind the mnemonic, before white space or a mark. -/
theorem exists_rest_of_parse (h : parse t = .ok i) :
    ∃ m rest, unifyArrows t = m ++ rest ∧ Text.lower m = i.mnemonic ∧ arrow ∉ m ∧
      (∀ c ∈ rest.head?, c ≠ arrow → isBlank c = true) ∧
      operandTexts? rest = some (i.operands.map Operand.text, i.hasDestination) := by
  obtain ⟨-, hm, texts, htexts, hoperands⟩ := parse_eq_ok_iff.1 h
  refine ⟨_, _, List.takeWhile_append_dropWhile.symm, hm, ?_, ?_, ?_⟩
  · intro hmem
    exact absurd (List.mem_takeWhile_imp hmem) (by decide)
  · intro c hc hne
    have hnot := List.head?_dropWhile_not inMnemonic (unifyArrows t)
    rw [hc] at hnot
    simpa [inMnemonic, hne] using hnot
  · rw [htexts, texts_of_parse hoperands]

section Cuts

variable {m rest sources destination : Text}

theorem rendered_of_arrow_notMem (hm : Text.lower m = i.mnemonic) (ht : unifyArrows t = m ++ rest)
    (harrow : arrow ∉ m) (hrest : arrow ∉ rest)
    (hblank : ∀ c ∈ rest.head?, c ≠ arrow → isBlank c = true)
    (htexts : operandTexts? rest = some (i.operands.map Operand.text, i.hasDestination)) :
    i.Rendered t := by
  have hnone : arrow ∉ unifyArrows t := by
    rw [ht, List.mem_append, not_or]
    exact ⟨harrow, hrest⟩
  have hfirst : ∀ c ∈ rest.head?, isBlank c = true := fun c hc =>
    hblank c hc (ne_of_mem_of_not_mem (List.mem_of_mem_head? hc) hrest)
  unfold operandTexts? at htexts
  rw [cut?_of_notMem hrest] at htexts
  obtain ⟨hfields, hdest⟩ := Prod.mk.inj (Option.some.inj htexts)
  obtain ⟨s, tail, rfl, hs, htail⟩ := exists_spaced fun c hc => isSeparator_of_isBlank (hfirst c hc)
  rw [hfields] at hs
  rw [← eq_of_arrow_notMem hnone, ht]
  exact .sources hm hdest.symm hs htail hfirst

theorem rendered_of_arrow (h : i.WellFormed) (hm : Text.lower m = i.mnemonic)
    (ht : unifyArrows t = m ++ (sources ++ arrow :: destination)) (harrow : arrow ∉ m)
    (hsources : arrow ∉ sources)
    (hblank : ∀ c ∈ (sources ++ arrow :: destination).head?, c ≠ arrow → isBlank c = true)
    (htexts : operandTexts? (sources ++ arrow :: destination) =
      some (i.operands.map Operand.text, i.hasDestination)) : i.Rendered t := by
  have hfirst : ∀ c ∈ sources.head?, isBlank c = true := by
    intro c hc
    refine hblank c ?_ (ne_of_mem_of_not_mem (List.mem_of_mem_head? hc) hsources)
    rw [List.head?_append, hc]
    rfl
  unfold operandTexts? at htexts
  rw [cut?_append_cons hsources] at htexts
  dsimp only at htexts
  split at htexts
  · rename_i d hd
    obtain ⟨hfields, hdest⟩ := Prod.mk.inj (Option.some.inj htexts)
    obtain ⟨operands, ends, hoperands, hfront, hback⟩ := List.map_eq_append_iff.1 hfields.symm
    obtain ⟨last, rfl, rfl⟩ := List.map_eq_singleton_iff.1 hback
    obtain ⟨lead, tail, rfl, hlead, htail⟩ := exists_runs_of_fields hd
    obtain ⟨s, gap, rfl, hs, hgap⟩ := exists_spaced fun c hc => isSeparator_of_isBlank (hfirst c hc)
    have hbefore : arrow ∉ m ++ (s ++ gap) := by
      rw [List.mem_append, not_or]
      exact ⟨harrow, hsources⟩
    rw [← List.append_assoc] at ht
    obtain ⟨mark, hmark, rest, rfl, hrest⟩ := exists_mark_of_unifyArrows hbefore ht
    -- Behind the mark there is no other, so nothing was changed there.
    have hlast : Unbroken last.text := by
      refine h.unbroken _ (List.mem_map_of_mem ?_)
      rw [hoperands]
      exact List.mem_append_right _ List.mem_cons_self
    have hafter : arrow ∉ unifyArrows rest := by
      rw [hrest, List.mem_append, List.mem_append, not_or, not_or]
      exact ⟨hlead.notMem (by decide), hlast.notMem _ (by decide), htail.notMem (by decide)⟩
    rw [← hfront] at hs
    rw [← eq_of_arrow_notMem hafter, hrest]
    exact .destination hm hdest.symm hoperands hs hgap hmark hlead htail hfirst
  · cases htexts

end Cuts

/-- Every text that is read is a rendering of what is read from it. -/
theorem rendered_of_parse (h : parse t = .ok i) : i.Rendered t := by
  obtain ⟨m, rest, ht, hm, harrow, hblank, htexts⟩ := exists_rest_of_parse h
  by_cases hmem : arrow ∈ rest
  · obtain ⟨sources, destination, rfl, hsources⟩ := List.eq_append_cons_of_mem hmem
    exact rendered_of_arrow (.of_parse h) hm ht harrow hsources hblank htexts
  · exact rendered_of_arrow_notMem hm ht harrow hmem hblank htexts

/-- The first operand, or the mark, stands behind a space. -/
theorem spaced_quoted (texts : List Text) :
    Spaced texts (if texts.isEmpty then [] else ' ' :: join [',', ' '] texts) ∧
      ∀ tail : Text, (∀ c ∈ tail.head?, isBlank c = true) →
        ∀ c ∈ ((if texts.isEmpty then [] else ' ' :: join [',', ' '] texts) ++ tail).head?,
          isBlank c = true := by
  cases texts with
  | nil => exact ⟨.nil, fun tail htail => htail⟩
  | cons t texts =>
    rw [List.isEmpty_cons, if_neg Bool.false_ne_true]
    constructor
    · exact .join (List.cons_ne_nil ' ' []) isRun_space (List.cons_ne_nil t texts)
    · exact fun tail _ => forall_mem_head_cons (by decide) _

/-- The text of an instruction in messages is one of its renderings. -/
theorem WellFormed.rendered_text (h : i.WellFormed) (ht : i.Rendered t) : i.Rendered i.text := by
  have hm := h.token_mnemonic.2
  cases ht with
  | sources _ hdest hs _ _ =>
    obtain ⟨hspaced, hblank⟩ := spaced_quoted (i.operands.map Operand.text)
    have htext := Rendered.sources hm hdest hspaced (List.forall_mem_nil _) (hblank [] (by simp))
    unfold Instruction.text
    simpa [hdest] using htext
  | @destination _ _ _ _ _ _ operands last _ hdest hoperands _ _ _ _ _ _ =>
    obtain ⟨hspaced, hblank⟩ := spaced_quoted (operands.map Operand.text)
    have hmark : [arrow] ∈ marks := by decide
    have htext := Rendered.destination hm hdest hoperands hspaced isRun_space hmark isRun_space
      (List.forall_mem_nil _) (hblank [' '] (forall_mem_head_cons (by decide) []))
    unfold Instruction.text
    simpa [hdest, hoperands] using htext

/-- An instruction that was read is read again from each of its renderings, and from no other text.
Its text in messages is one of them. -/
theorem renderings_read_back (h : parse t = .ok i) :
    (∀ u, parse u = .ok i ↔ i.Rendered u) ∧ parse i.text = .ok i := by
  have hformed : i.WellFormed := .of_parse h
  refine ⟨fun u => ⟨rendered_of_parse, hformed.parse_of_rendered⟩, ?_⟩
  exact hformed.parse_of_rendered (hformed.rendered_text (rendered_of_parse h))

/-- The mark next to the operands, a tab behind the mnemonic, and commas where none are needed. -/
theorem glued_mark_read_back : ∃ i : Instruction,
    parse "add R1, -5 → [x]".toList = .ok i ∧
    parse "Add\tR1 ,-5->[x],".toList = .ok i ∧ parse i.text = .ok i := by
  have hparse : parse "add R1, -5 → [x]".toList = .ok ⟨"add".toList, .add, .of .neg .zero,
      [⟨"R1".toList, false, .register .pos⟩,
       ⟨"-5".toList, false, .literal ⟨⟨.zero, .zero, .zero⟩, ⟨.neg, .pos, .pos⟩⟩⟩] ++
      [⟨"[x]".toList, true, .label "x".toList⟩], true⟩ := by decide +kernel
  have hsources : Spaced ["R1".toList, "-5".toList]
      ("\t".toList ++ ("R1".toList ++ (" ,".toList ++ ("-5".toList ++ [])))) :=
    .cons (by decide) (List.all_eq_true.1 (by decide))
      (.cons (by decide) (List.all_eq_true.1 (by decide)) .nil)
  have htail : IsRun [','] := List.forall_mem_singleton.2 (by decide)
  have hmark : ['-', '>'] ∈ marks := by decide
  obtain ⟨hread, htext⟩ := renderings_read_back hparse
  have hglued := (hread _).2 (.destination (m := "Add".toList) (by decide) rfl rfl hsources
    (List.forall_mem_nil _) hmark (List.forall_mem_nil _) htail
    (forall_mem_head_cons (by decide) _))
  exact ⟨_, hparse, hglued, htext⟩

end Renderings

end Instruction

end BalancedTernary.Assembly
