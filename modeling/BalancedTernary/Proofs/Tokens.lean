import BalancedTernary.Proofs.NumeralGrammar
import BalancedTernary.Proofs.Printing

/-!
# Tokens

The names of registers, the names of labels and the numerals are three classes of texts that have
none in common, and no text of them is cut by the marks between tokens. So a label that can be
declared can be referred to wherever a value may stand.
-/

namespace BalancedTernary

open Text

namespace Assembly

/-! ## Characters between tokens -/

/-- The code points of white space. -/
def blankCodes : List Nat :=
  [0x09, 0x0A, 0x0B, 0x0C, 0x0D, 0x20, 0x85, 0xA0, 0x1680, 0x2000, 0x2001, 0x2002, 0x2003, 0x2004,
   0x2005, 0x2006, 0x2007, 0x2008, 0x2009, 0x200A, 0x2028, 0x2029, 0x202F, 0x205F, 0x3000]

/-- The characters that no token holds: the separators, and what a destination mark is known by. -/
def strangers : Text := [',', '→', '>'] ++ blankCodes.map Char.ofNat

theorem mem_strangers_of_isSeparator {c : Char} (h : isSeparator c = true) : c ∈ strangers := by
  unfold strangers
  rw [List.mem_append]
  simp only [isSeparator, Bool.or_eq_true, beq_iff_eq] at h
  obtain rfl | h := h
  · exact .inl List.mem_cons_self
  · refine .inr (List.mem_map.2 ⟨c.toNat, ?_, Char.ofNat_toNat c⟩)
    -- White space is given by ranges, which come down to the code points in the list.
    simp only [isBlank, Bool.or_eq_true, Bool.and_eq_true, decide_eq_true_eq, beq_iff_eq] at h
    simp only [blankCodes, List.mem_cons, List.not_mem_nil, or_false]
    omega

/-- A run of separators, which may be empty. -/
def IsRun (s : Text) : Prop := ∀ c ∈ s, isSeparator c = true

/-- A text that is not empty and has none of the characters between tokens. -/
structure Unbroken (s : Text) : Prop where
  ne_nil : s ≠ []
  notMem : ∀ c ∈ strangers, c ∉ s

namespace Unbroken

variable {s t : Text}

theorem separates (h : Unbroken s) : ∀ c ∈ s, isSeparator c = false := by
  intro c hc
  rw [Bool.eq_false_iff]
  intro hsep
  exact h.notMem c (mem_strangers_of_isSeparator hsep) hc

theorem fields_eq (h : Unbroken s) : fields isSeparator s = [s] := fields_token h.ne_nil h.separates

theorem of_all {p : Char → Bool} (hne : s ≠ []) (hs : ∀ c ∈ s, p c = true)
    (hp : strangers.all (fun c => !p c) = true) : Unbroken s where
  ne_nil := hne
  notMem c hc hmem := by
    have hfalse := List.all_eq_true.1 hp c hc
    rw [hs c hmem] at hfalse
    cases hfalse

theorem of_token (h : Token s) : Unbroken s := of_all h.ne_nil h.plain (by decide +kernel)

/-- Mapping to lower case leaves the characters between tokens alone. -/
theorem of_lower (h : Unbroken (lower s)) : Unbroken s where
  ne_nil := by
    rintro rfl
    exact h.ne_nil rfl
  notMem c hc hmem := by
    -- Each of these is its own lower case, so it would still be there.
    have hlower : strangers.all (fun c => lowerChar c == c) = true := by decide +kernel
    refine h.notMem c hc (List.mem_map.2 ⟨c, hmem, ?_⟩)
    exact beq_iff_eq.1 (List.all_eq_true.1 hlower c hc)

theorem cons {c : Char} (hc : c ∉ strangers) (h : Unbroken s) : Unbroken (c :: s) where
  ne_nil := List.cons_ne_nil c s
  notMem d hd hmem := by
    obtain rfl | hmem := List.mem_cons.1 hmem
    · exact hc hd
    · exact h.notMem d hd hmem

theorem concat {c : Char} (hc : c ∉ strangers) (h : Unbroken s) : Unbroken (s ++ [c]) where
  ne_nil := List.concat_ne_nil c s
  notMem d hd hmem := by
    obtain hmem | hmem := List.mem_append.1 hmem
    · exact h.notMem d hd hmem
    · rw [List.mem_singleton.1 hmem] at hd
      exact hc hd

end Unbroken

theorem isNext_of_isName {s : Text} (h : Label.isName s = true) :
    ∀ c ∈ s, Label.isNext c = true := by
  match s, h with
  | c :: s, h =>
    rw [Label.isName, Bool.and_eq_true, List.all_eq_true] at h
    refine List.forall_mem_cons.2 ⟨?_, h.2⟩
    -- The first character is more restricted than the others.
    have hletter : isLetter c = true := (Bool.and_eq_true_iff.1 h.1).1
    rw [Label.isNext, hletter, Bool.true_or, Bool.true_or]

theorem unbroken_of_isName {s : Text} (h : Label.isName s = true) : Unbroken s := by
  refine .of_all (p := Label.isNext) ?_ (isNext_of_isName h) (by decide +kernel)
  rintro rfl
  cases h

theorem unbroken_of_register {s : Text} {r : Register} (h : Register.ofName? s = some r) :
    Unbroken s := by
  have hname : r.name.toList = lower s := by simpa using List.find?_some h
  apply Unbroken.of_lower
  rw [← hname]
  cases r <;> exact .of_token (token_of_all (by decide) (by decide))

theorem unbroken_of_width {s : Text} {w : Width} (h : Width.ofName? s = some w) : Unbroken s := by
  have htable : Width.names.all (fun p => p.1.toList ≠ [] && p.1.toList.all isPlain) = true := by
    decide
  obtain ⟨p, hp, -⟩ := Option.map_eq_some_iff.1 h
  have hname : p.1.toList = lower s := by simpa using List.find?_some hp
  have htoken := List.all_eq_true.1 htable p (List.mem_of_find?_eq_some hp)
  rw [Bool.and_eq_true, decide_eq_true_eq] at htoken
  apply Unbroken.of_lower
  rw [← hname]
  exact .of_token (token_of_all htoken.1 htoken.2)

/-! ## Numerals -/

section Numerals

variable {s : Text} {w : Width} {word : Word}

theorem ne_nil_of_signedDecimal {v : Int} (h : SignedDecimal s v) : s ≠ [] := by
  cases h with
  | unsigned hn => exact hn.ne_nil
  | plus _ => exact List.cons_ne_nil _ _
  | minus _ => exact List.cons_ne_nil _ _

theorem mem_decimalChars_of_signedDecimal {v : Int} (h : SignedDecimal s v) :
    ∀ c ∈ s, c ∈ decimalChars := by
  cases h with
  | unsigned hn => exact fun c hc => mem_decimalChars_of_isDigit (hn.isDigit c hc)
  | plus hn =>
    refine List.forall_mem_cons.2 ⟨by decide, ?_⟩
    exact fun c hc => mem_decimalChars_of_isDigit (hn.isDigit c hc)
  | minus hn =>
    refine List.forall_mem_cons.2 ⟨by decide, ?_⟩
    exact fun c hc => mem_decimalChars_of_isDigit (hn.isDigit c hc)

theorem exists_signedDecimal_of_encodeDecimal (h : Numeral.encodeDecimal s w = .ok word) :
    ∃ v, SignedDecimal s v := by
  unfold Numeral.encodeDecimal at h
  split at h
  · cases h
  · cases h
  · rename_i hread
    exact ⟨_, readDecimal_eq_ok_iff.1 hread⟩

/-- A numeral starts with a sign or a decimal digit, also where letters follow. -/
theorem exists_head_of_encode (h : Numeral.encode s w = .ok word) :
    ∃ c rest, s = c :: rest ∧ c ∈ decimalChars := by
  unfold Numeral.encode at h
  split at h
  · exact ⟨_, _, rfl, by decide⟩
  · exact ⟨_, _, rfl, by decide⟩
  · obtain ⟨v, hv⟩ := exists_signedDecimal_of_encodeDecimal h
    obtain ⟨c, rest, rfl⟩ := List.exists_cons_of_ne_nil (ne_nil_of_signedDecimal hv)
    exact ⟨c, rest, rfl, mem_decimalChars_of_signedDecimal hv c List.mem_cons_self⟩

theorem unbroken_of_readBody {α : Type} {digit? : Char → Option α} {limit : Int}
    {empty long : Numeral.Fault} {bad : Char → Numeral.Fault} {digits : List α}
    (h : Numeral.readBody digit? limit empty long bad s = .ok digits)
    (hdigit : strangers.all (fun c => !(digit? c).isSome) = true) : Unbroken s := by
  obtain ⟨hne, -, hdigits⟩ := Numeral.readBody_eq_ok_iff.1 h
  refine .of_all (p := fun c => (digit? c).isSome) hne ?_ hdigit
  intro c hc
  obtain ⟨d, -, hd⟩ := Outcome.exists_of_mem_left hdigits hc
  rw [hd, Option.isSome_some]

theorem unbroken_of_encode (h : Numeral.encode s w = .ok word) : Unbroken s := by
  unfold Numeral.encode at h
  split at h
  · rw [Numeral.encodeTrits_eq] at h
    obtain ⟨trits, hread, -⟩ := Outcome.map_eq_ok.1 h
    exact .cons (by decide) (.cons (by decide) (unbroken_of_readBody hread (by decide +kernel)))
  · rw [Numeral.encodeTriads_eq] at h
    obtain ⟨triads, hread, -⟩ := Outcome.map_eq_ok.1 h
    exact .cons (by decide) (.cons (by decide) (unbroken_of_readBody hread (by decide +kernel)))
  · obtain ⟨v, hv⟩ := exists_signedDecimal_of_encodeDecimal h
    exact .of_token (token_of_decimalChars (ne_nil_of_signedDecimal hv)
      (mem_decimalChars_of_signedDecimal hv))

end Numerals

/-! ## Classes of tokens -/

inductive TokenClass where
  | register
  | label
  | numeral
deriving DecidableEq

/-- `s` is a token of the class. A numeral may have any width. -/
def TokenClass.Holds : TokenClass → Text → Prop
  | register, s => (Register.ofName? s).isSome = true
  | label, s => Label.isName s = true ∧ Register.ofName? s = none
  | numeral, s => ∃ w word, Numeral.encode s w = .ok word

namespace TokenClass

variable {s : Text}

theorem not_register_of_numeral (h : numeral.Holds s) : ¬ register.Holds s := by
  obtain ⟨w, word, hword⟩ := h
  obtain ⟨c, rest, rfl, hc⟩ := exists_head_of_encode hword
  rw [Holds, Register.ofName?_of_decimalChars hc]
  exact Bool.false_ne_true

theorem not_label_of_numeral (h : numeral.Holds s) : ¬ label.Holds s := by
  obtain ⟨w, word, hword⟩ := h
  obtain ⟨c, rest, rfl, hc⟩ := exists_head_of_encode hword
  rw [Holds, Label.isName_of_decimalChars hc]
  exact fun hlabel => Bool.false_ne_true hlabel.1

theorem not_register_of_label (h : label.Holds s) : ¬ register.Holds s := by
  rw [Holds, h.2]
  exact Bool.false_ne_true

theorem eq_of_holds {a b : TokenClass} (ha : a.Holds s) (hb : b.Holds s) : a = b := by
  match a, b, ha, hb with
  | .register, .register, _, _ => rfl
  | .register, .label, ha, hb => exact absurd ha (not_register_of_label hb)
  | .register, .numeral, ha, hb => exact absurd ha (not_register_of_numeral hb)
  | .label, .register, ha, hb => exact absurd hb (not_register_of_label ha)
  | .label, .label, _, _ => rfl
  | .label, .numeral, ha, hb => exact absurd ha (not_label_of_numeral hb)
  | .numeral, .register, ha, hb => exact absurd hb (not_register_of_numeral ha)
  | .numeral, .label, ha, hb => exact absurd hb (not_label_of_numeral ha)
  | .numeral, .numeral, _, _ => rfl

/-- No token is cut at a separator, or read as part of a destination mark. -/
theorem unbroken {a : TokenClass} (h : a.Holds s) : Unbroken s := by
  match a, h with
  | .register, h => exact unbroken_of_register (Option.get_mem h)
  | .label, h => exact unbroken_of_isName h.1
  | .numeral, ⟨_, _, h⟩ => exact unbroken_of_encode h

theorem exists_of_parseValue {v : Operand.Value} (h : Operand.parseValue s = .ok v) :
    ∃ a : TokenClass, a.Holds s := by
  unfold Operand.parseValue at h
  split at h
  · rename_i hregister
    exact ⟨.register, Option.isSome_of_mem hregister⟩
  · rename_i hregister
    split at h
    · rename_i hname
      exact ⟨.label, hname, hregister⟩
    · obtain ⟨word, hword, -⟩ := Outcome.map_eq_ok.1 h
      exact ⟨.numeral, _, word, hword⟩

end TokenClass

theorem eq_of_unbracket? {s inner : Text} (hs : ∀ c ∈ s, isSeparator c = false)
    (h : Operand.unbracket? s = some inner) : s = '[' :: (inner ++ [']']) := by
  unfold Operand.unbracket? at h
  split at h
  · split at h
    · rename_i rest hlast
      have hrest : ∀ c ∈ rest.dropLast, isSeparator c = false := fun c hc =>
        hs c (List.mem_cons_of_mem _ ((List.dropLast_sublist rest).subset hc))
      rw [← Option.some.inj h, Disassembly.trim_of_separates hrest,
        List.dropLast_append_getLast?]
      exact hlast
    · cases h
  · cases h

/-- A field that is read as an operand is not cut anywhere, and neither is what its brackets
hold. -/
theorem unbroken_of_parse {s : Text} {o : Operand} (hs : ∀ c ∈ s, isSeparator c = false)
    (h : Operand.parse s = .ok o) : Unbroken s := by
  unfold Operand.parse at h
  split at h
  · cases h
  · rename_i v hvalue
    obtain ⟨a, ha⟩ := TokenClass.exists_of_parseValue hvalue
    have hinner := TokenClass.unbroken ha
    cases hbracket : Operand.unbracket? s with
    | none =>
      rw [hbracket] at hinner
      exact hinner
    | some inner =>
      rw [hbracket] at hinner
      rw [eq_of_unbracket? hs hbracket]
      exact .cons (by decide) (hinner.concat (by decide))

/-! ## References -/

/-- The trytes of a label as a value of width `w`: zeros, and its address in the last place. -/
def Data.address (w : Width) (l : Label) : List Relocatable :=
  List.replicate (w.trytes.toInt.toNat - 1) (.tryte .zero) ++ [.address l]

/-- A label that stands for itself wherever a value may stand. -/
structure Referable (l : Label) : Prop where
  /-- It is one field between separators, whatever stands around it. -/
  field {before after : Text} (hbefore : ∀ c ∈ before.getLast?, isSeparator c = true)
    (hafter : ∀ c ∈ after.head?, isSeparator c = true) :
    fields isSeparator (before ++ l ++ after) =
      fields isSeparator before ++ l :: fields isSeparator after
  operand : Operand.parse l = .ok ⟨l, false, .label l⟩
  memory : Operand.parse ('[' :: l ++ [']']) = .ok ⟨'[' :: l ++ [']'], true, .label l⟩
  value (body : Text) (w : Width) : Data.encodeValue body w l = .ok (Data.address w l)

namespace Referable

variable {l : Label}

theorem of_holds (h : TokenClass.label.Holds l) : Referable l := by
  have hvalue : Operand.parseValue l = .ok (.label l) := by
    unfold Operand.parseValue
    rw [h.2]
    dsimp only
    rw [if_pos h.1]
  -- A name holds no bracket, so without brackets around it there is nothing to take off.
  have hbracket : '[' ∉ l := fun hmem => by
    have hnext : Label.isNext '[' = false := by decide +kernel
    rw [isNext_of_isName h.1 _ hmem] at hnext
    cases hnext
  refine ⟨?_, ?_, ?_, ?_⟩
  · intro before after hbefore hafter
    rw [fields_append_of_head _ hafter, fields_append_of_last _ hbefore,
      (unbroken_of_isName h.1).fields_eq, List.append_assoc, List.singleton_append]
  · exact Disassembly.parse_bracket hbracket (unbroken_of_isName h.1).separates hvalue false
  · exact Disassembly.parse_bracket hbracket (unbroken_of_isName h.1).separates hvalue true
  · intro body w
    unfold Data.encodeValue
    rw [h.2, Option.isSome_none, if_neg Bool.false_ne_true, if_pos h.1]
    rfl

/-- In a directive the label takes its place among the other values. -/
theorem assemble_eq_ok (h : Referable l) {before after type : Text} {values : List Text}
    {w : Width} {front back : List (List Relocatable)}
    (hbefore : ∀ c ∈ before.getLast?, isSeparator c = true)
    (hafter : ∀ c ∈ after.head?, isSeparator c = true)
    (hfields : fields isSeparator before = type :: values) (htype : Width.ofName? type = some w)
    (hfront : List.Forall₂ (fun value part =>
      Data.encodeValue (before ++ l ++ after) w value = .ok part) values front)
    (hback : List.Forall₂ (fun value part =>
      Data.encodeValue (before ++ l ++ after) w value = .ok part) (fields isSeparator after) back) :
    Data.assemble (before ++ l ++ after) =
      .ok (front.flatten ++ (Data.address w l ++ back.flatten)) := by
  refine Data.assemble_eq_ok_iff.2 ⟨type, values ++ l :: fields isSeparator after, w,
    front ++ Data.address w l :: back, ?_, htype, by simp, ?_, by simp⟩
  · rw [h.field hbefore hafter, hfields, List.cons_append]
  · exact List.rel_append hfront (.cons (h.value _ w) hback)

/-- A directive with the label for its only value. -/
theorem assemble_type (h : Referable l) {type gap tail : Text} {w : Width}
    (htype : Width.ofName? type = some w) (hne : gap ≠ []) (hgap : IsRun gap)
    (htail : IsRun tail) :
    Data.assemble (type ++ gap ++ l ++ tail) = .ok (Data.address w l) := by
  have hfields : fields isSeparator (type ++ gap) = [type] := by
    rw [fields_append_of_head _ fun c hc => hgap c (List.mem_of_mem_head? hc),
      (unbroken_of_width htype).fields_eq, fields_eq_nil hgap, List.append_nil]
  have hlast : ∀ c ∈ (type ++ gap).getLast?, isSeparator c = true := by
    rw [List.getLast?_append_of_ne_nil _ hne]
    exact fun c hc => hgap c (List.mem_of_getLast? hc)
  have hassemble := h.assemble_eq_ok hlast (fun c hc => htail c (List.mem_of_mem_head? hc)) hfields
    htype .nil (by rw [fields_eq_nil htail]; exact .nil)
  simpa using hassemble

end Referable

theorem holds_of_split {s : Statement} {l : Label} {body : Text}
    (h : s.split = .ok (some l, body)) : TokenClass.label.Holds l := by
  unfold Statement.split at h
  split at h
  · cases h
  · dsimp only at h
    split at h
    · cases h
    · rename_i hname
      split at h
      · cases h
      · rename_i hregister
        cases h
        exact ⟨by simpa using hname, by simpa using hregister⟩

/-- No text is a token of two classes. A label that a statement declares is of the second class, and
can be referred to as an operand, as an address in memory and as a value of a directive, where it
stands for itself and is not cut. -/
theorem declared_labels_referable :
    (∀ (s : Text) (a b : TokenClass), a.Holds s → b.Holds s → a = b) ∧
    ∀ (s : Statement) (l : Label) (body : Text), s.split = .ok (some l, body) →
      TokenClass.label.Holds l ∧ Referable l ∧
      (∀ (type gap tail : Text) (w : Width), Width.ofName? type = some w → gap ≠ [] →
        IsRun gap → IsRun tail →
        Data.assemble (type ++ gap ++ l ++ tail) = .ok (Data.address w l)) ∧
      ∀ (before after type : Text) (values : List Text) (w : Width)
        (front back : List (List Relocatable)),
        (∀ c ∈ before.getLast?, isSeparator c = true) →
        (∀ c ∈ after.head?, isSeparator c = true) →
        fields isSeparator before = type :: values → Width.ofName? type = some w →
        List.Forall₂ (fun value part => Data.encodeValue (before ++ l ++ after) w value = .ok part)
          values front →
        List.Forall₂ (fun value part => Data.encodeValue (before ++ l ++ after) w value = .ok part)
          (fields isSeparator after) back →
        Data.assemble (before ++ l ++ after) =
          .ok (front.flatten ++ (Data.address w l ++ back.flatten)) := by
  constructor
  · intro s a b ha hb
    exact TokenClass.eq_of_holds ha hb
  · intro s l body h
    have hlabel : TokenClass.label.Holds l := holds_of_split h
    have hreferable : Referable l := .of_holds hlabel
    refine ⟨hlabel, hreferable, ?_, ?_⟩
    · intro type gap tail w htype hne hgap htail
      exact hreferable.assemble_type htype hne hgap htail
    · intro before after type values w front back hbefore hafter hfields htype hfront hback
      exact hreferable.assemble_eq_ok hbefore hafter hfields htype hfront hback

/-- A label may hold the glyph of the negative trit, but not start with it. -/
theorem declared_label_with_glyph :
    Statement.split ⟨1, .code, "  aλ1 : jmp aλ1".toList⟩ =
      .ok (some "aλ1".toList, "jmp aλ1".toList) ∧
    ¬ TokenClass.numeral.Holds "aλ1".toList ∧
    Operand.parse "aλ1".toList = .ok ⟨"aλ1".toList, false, .label "aλ1".toList⟩ ∧
    Data.assemble "Pair, aλ1,".toList = .ok [.tryte .zero, .address "aλ1".toList] := by
  obtain ⟨hclass, hlabel⟩ := declared_labels_referable
  have hsplit : Statement.split ⟨1, .code, "  aλ1 : jmp aλ1".toList⟩ =
      .ok (some "aλ1".toList, "jmp aλ1".toList) := by decide +kernel
  obtain ⟨hholds, hreferable, hassemble, -⟩ := hlabel _ _ _ hsplit
  refine ⟨hsplit, ?_, hreferable.operand, ?_⟩
  · intro hnumeral
    exact absurd (hclass _ _ _ hholds hnumeral) (by decide)
  · exact hassemble "Pair".toList ", ".toList ",".toList .pair (by decide) (by decide)
      (List.all_eq_true.1 (by decide)) (List.all_eq_true.1 (by decide))

end Assembly

end BalancedTernary
