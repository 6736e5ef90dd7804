import BalancedTernary.Disassembly.Printer
import BalancedTernary.Proofs.Decoding
import BalancedTernary.Proofs.Numeral
import BalancedTernary.Proofs.Text

/-!
# Reading what is printed

Every printed operand is read back as the operand that it stands for. Tokens are made of characters
that mean nothing to a source text, so that a printed line falls apart where it was put together.
-/

namespace BalancedTernary

namespace Text

/-! ## Characters -/

/-- Visible ASCII, without the marks that a source text gives a meaning to. -/
def isPlain (c : Char) : Bool :=
  decide (0x21 ≤ c.toNat ∧ c.toNat ≤ 0x7E) && !([',', '.', ':', ';', '>'].contains c)

theorem isSeparator_of_isPlain {c : Char} (h : isPlain c = true) :
    Assembly.isSeparator c = false := by
  simp only [isPlain, Bool.and_eq_true, decide_eq_true_eq, List.contains_eq_mem,
    Bool.not_eq_true', decide_eq_false_iff_not, List.mem_cons, not_or] at h
  have hcomma : (c == ',') = false := by simpa using h.2.1
  rw [Assembly.isSeparator, hcomma, Bool.false_or, isBlank]
  simp only [Bool.or_eq_false_iff, Bool.and_eq_false_iff, decide_eq_false_iff_not,
    beq_eq_false_iff_ne]
  omega

theorem isBlank_of_isPlain {c : Char} (h : isPlain c = true) : isBlank c = false :=
  (Bool.or_eq_false_iff.1 (isSeparator_of_isPlain h)).2

/-- A non-empty text of plain characters. -/
structure Token (s : Text) : Prop where
  ne_nil : s ≠ []
  plain : ∀ c ∈ s, isPlain c = true

theorem token_of_all {s : Text} (hne : s ≠ []) (hs : s.all isPlain = true) : Token s :=
  ⟨hne, List.all_eq_true.1 hs⟩

theorem Token.separates {s : Text} (h : Token s) : ∀ c ∈ s, Assembly.isSeparator c = false :=
  fun c hc => isSeparator_of_isPlain (h.plain c hc)

theorem Token.fields {s : Text} (h : Token s) : fields Assembly.isSeparator s = [s] :=
  fields_token h.ne_nil h.separates

/-- A mark that is not plain is in no token. -/
theorem Token.notMem {s : Text} (h : Token s) {c : Char} (hc : isPlain c = false) : c ∉ s :=
  fun hmem => Bool.false_ne_true (hc.symm.trans (h.plain c hmem))

/-! ## Bodies -/

/-- The characters between the tokens of a printed statement. -/
def joints : Text := [' ', ',', '→']

/-- A text that starts and ends with a token and has nothing but joints between tokens. -/
structure Body (s : Text) : Prop where
  ne_nil : s ≠ []
  first : ∀ c ∈ s.head?, isPlain c = true
  last : ∀ c ∈ s.getLast?, isPlain c = true
  chars : ∀ c ∈ s, isPlain c = true ∨ c ∈ joints

theorem Token.body {s : Text} (h : Token s) : Body s where
  ne_nil := h.ne_nil
  first c hc := h.plain c (List.mem_of_mem_head? hc)
  last c hc := h.plain c (List.mem_of_getLast? hc)
  chars c hc := .inl (h.plain c hc)

namespace Body

variable {s t between : Text}

theorem append (hs : Body s) (hbetween : ∀ c ∈ between, c ∈ joints) (ht : Body t) :
    Body (s ++ between ++ t) where
  ne_nil := List.append_ne_nil_of_right_ne_nil _ ht.ne_nil
  first := by
    rw [List.append_assoc, List.head?_append_of_ne_nil _ hs.ne_nil]
    exact hs.first
  last := by
    rw [List.getLast?_append_of_ne_nil _ ht.ne_nil]
    exact ht.last
  chars := List.forall_mem_append.2
    ⟨List.forall_mem_append.2 ⟨hs.chars, fun c hc => .inr (hbetween c hc)⟩, ht.chars⟩

theorem join {parts : List Text} (hne : parts ≠ []) (hparts : ∀ s ∈ parts, Token s) :
    Body (Text.join [',', ' '] parts) := by
  induction parts with
  | nil => exact absurd rfl hne
  | cons s parts ih =>
    rw [List.forall_mem_cons] at hparts
    cases parts with
    | nil =>
      rw [join_singleton]
      exact hparts.1.body
    | cons t parts =>
      rw [join_cons_cons]
      exact hparts.1.body.append (by simp [joints]) (ih (List.cons_ne_nil _ _) hparts.2)

theorem trim_eq (h : Body s) : trim s = s :=
  trim_eq_self (fun c hc => isBlank_of_isPlain (h.first c hc))
    (fun c hc => isBlank_of_isPlain (h.last c hc))

theorem notMem (h : Body s) {c : Char} (hc : isPlain c = false) (hjoint : c ∉ joints) : c ∉ s := by
  intro hmem
  obtain hplain | hmem := h.chars c hmem
  · exact Bool.false_ne_true (hc.symm.trans hplain)
  · exact hjoint hmem

end Body

/-! ## Decimals -/

/-- The characters that decimals are made of. -/
def decimalChars : Text := "+-0123456789".toList

/-- `s` is a signed decimal with the value of `t`. -/
structure Decimal (s : Text) (t : Tryte) : Prop where
  ne_nil : s ≠ []
  chars : ∀ c ∈ s, c ∈ decimalChars
  read : readDecimal s = .ok (Int64.ofInt t.toInt)

theorem integer_ne_nil (v : Int) : integer v ≠ [] := by
  unfold integer
  split
  · exact List.cons_ne_nil _ _
  · exact natural_ne_nil _

theorem mem_decimalChars_of_isDigit {c : Char} (h : c.isDigit = true) : c ∈ decimalChars :=
  List.mem_cons_of_mem _ (List.mem_cons_of_mem _ (mem_of_isDigit h))

theorem mem_decimalChars_of_mem_integer {v : Int} {c : Char} (h : c ∈ integer v) :
    c ∈ decimalChars := by
  unfold integer at h
  split at h
  · obtain rfl | h := List.mem_cons.1 h
    · decide
    · exact mem_decimalChars_of_isDigit (isDigit_of_mem_natural h)
  · exact mem_decimalChars_of_isDigit (isDigit_of_mem_natural h)

theorem signedInteger_ne_nil (v : Int) : signedInteger v ≠ [] := by
  unfold signedInteger
  split
  · exact integer_ne_nil _
  · exact List.cons_ne_nil _ _

theorem mem_decimalChars_of_mem_signedInteger {v : Int} {c : Char} (h : c ∈ signedInteger v) :
    c ∈ decimalChars := by
  unfold signedInteger at h
  split at h
  · exact mem_decimalChars_of_mem_integer h
  · obtain rfl | h := List.mem_cons.1 h
    · decide
    · exact mem_decimalChars_of_mem_integer h

theorem token_of_decimalChars {s : Text} (hne : s ≠ []) (hs : ∀ c ∈ s, c ∈ decimalChars) :
    Token s where
  ne_nil := hne
  plain c hc := by
    have hplain : decimalChars.all isPlain = true := by decide
    exact List.all_eq_true.1 hplain c (hs c hc)

theorem token_integer (v : Int) : Token (integer v) :=
  token_of_decimalChars (integer_ne_nil v) fun _ hc => mem_decimalChars_of_mem_integer hc

theorem token_signedInteger (v : Int) : Token (signedInteger v) :=
  token_of_decimalChars (signedInteger_ne_nil v) fun _ hc =>
    mem_decimalChars_of_mem_signedInteger hc

theorem tryte_signedLimit (t : Tryte) :
    -(signedLimit : Int) ≤ t.toInt ∧ t.toInt < signedLimit := by
  have h := t.toInt_bounds
  unfold signedLimit
  omega

theorem decimal_integer (t : Tryte) : Decimal (integer t.toInt) t where
  ne_nil := integer_ne_nil _
  chars _ hc := mem_decimalChars_of_mem_integer hc
  read := readDecimal_integer (tryte_signedLimit t).1 (tryte_signedLimit t).2

theorem decimal_signedInteger (t : Tryte) : Decimal (signedInteger t.toInt) t where
  ne_nil := signedInteger_ne_nil _
  chars _ hc := mem_decimalChars_of_mem_signedInteger hc
  read := readDecimal_signedInteger (tryte_signedLimit t).1 (tryte_signedLimit t).2

end Text

theorem Register.ofName?_cons {c : Char} (hc : Text.lowerChar c ≠ 'r') (s : Text) :
    ofName? (c :: s) = none := by
  unfold ofName?
  rw [List.find?_eq_none]
  intro r hr
  rw [decide_eq_true_eq]
  intro heq
  have hhead : (name r).toList.head? = some 'r' := by
    cases r <;> decide
  rw [heq] at hhead
  exact hc (Option.some.inj hhead)

theorem Register.ofName?_of_decimalChars {c : Char} (hc : c ∈ Text.decimalChars) (s : Text) :
    ofName? (c :: s) = none := by
  have hlower : Text.decimalChars.all (fun c => Text.lowerChar c != 'r') = true := by decide
  exact ofName?_cons (bne_iff_ne.1 (List.all_eq_true.1 hlower c hc)) s

theorem Label.isName_of_decimalChars {c : Char} (hc : c ∈ Text.decimalChars) (s : Text) :
    isName (c :: s) = false := by
  have hfirst : Text.decimalChars.all (fun c => !isFirst c) = true := by decide +kernel
  have hc := List.all_eq_true.1 hfirst c hc
  rw [Bool.not_eq_true'] at hc
  rw [isName, hc, Bool.false_and]

/-- The mnemonics are tokens in lower case. -/
theorem Family.token_of_mem_variants {family : Family} {p : String × Variant}
    (hp : p ∈ family.variants) :
    Text.Token p.1.toList ∧ Text.lower p.1.toList = p.1.toList := by
  have htable : ∀ family ∈ all, ∀ p ∈ family.variants, (p.1.toList ≠ [] ∧
      p.1.toList.all Text.isPlain = true) ∧ Text.lower p.1.toList = p.1.toList := by
    decide +kernel
  obtain ⟨⟨hne, hplain⟩, hlower⟩ := htable family family.mem_all p hp
  exact ⟨Text.token_of_all hne hplain, hlower⟩

namespace Text.Decimal

variable {s : Text} {t : Tryte}

theorem ofName?_eq_none (h : Decimal s t) : Register.ofName? s = none := by
  match s, h with
  | [], h => exact absurd rfl h.ne_nil
  | c :: s, h => exact Register.ofName?_of_decimalChars (h.chars c List.mem_cons_self) s

theorem isName_eq_false (h : Decimal s t) : Label.isName s = false := by
  match s, h with
  | [], _ => rfl
  | c :: s, h => exact Label.isName_of_decimalChars (h.chars c List.mem_cons_self) s

/-- A decimal is not taken for one of the other notations. -/
theorem encode_eq_ok (h : Decimal s t) : Numeral.encode s .tryte = .ok [t] := by
  have hsmall : (Int64.ofInt t.toInt).toInt = t.toInt := by
    have hbounds := t.toInt_bounds
    apply Int64.toInt_ofInt_of_le <;> omega
  have hdecimal : Numeral.encodeDecimal s .tryte = .ok [t] := by
    unfold Numeral.encodeDecimal
    rw [h.read]
    dsimp only
    rw [Word.ofInt_tryte hsmall]
  unfold Numeral.encode
  -- The prefixes of the other notations hold a letter.
  split
  · exact absurd (h.chars 't' (List.mem_cons_of_mem _ List.mem_cons_self)) (by decide)
  · exact absurd (h.chars 'x' (List.mem_cons_of_mem _ List.mem_cons_self)) (by decide)
  · exact hdecimal

end Text.Decimal

namespace Disassembly

open Assembly Text

/-! ## Labels -/

/-- The characters that label names are made of. -/
def labelChars : Text := "loc_".toList ++ "0123456789".toList

theorem mem_labelName {a : Nat} {c : Char} (h : c ∈ labelName a) : c ∈ labelChars := by
  obtain h | h := List.mem_append.1 h
  · exact List.mem_append_left _ h
  · obtain h | h := List.mem_append.1 h
    · rw [List.eq_of_mem_replicate h]
      decide
    · exact List.mem_append_right _ (mem_of_isDigit (isDigit_of_mem_natural h))

theorem token_labelName (a : Nat) : Token (labelName a) where
  ne_nil := List.cons_ne_nil _ _
  plain c hc := by
    have hplain : labelChars.all isPlain = true := by decide
    exact List.all_eq_true.1 hplain c (mem_labelName hc)

theorem isName_labelName (a : Nat) : Label.isName (labelName a) = true := by
  -- The classes of letters and digits are long tables, so these are left to the kernel.
  have hfirst : Label.isFirst 'l' = true := by decide +kernel
  have hnext : labelChars.all Label.isNext = true := by decide +kernel
  change (Label.isFirst 'l' && (labelName a).tail.all Label.isNext) = true
  rw [hfirst, Bool.true_and, List.all_eq_true]
  exact fun c hc => List.all_eq_true.1 hnext c (mem_labelName (List.mem_of_mem_tail hc))

theorem ofName?_labelName (a : Nat) : Register.ofName? (labelName a) = none :=
  Register.ofName?_cons (by decide) _

/-- The number in a label gives the address back, also behind zeros. -/
theorem labelName_injective {a b : Nat} (h : labelName a = labelName b) : a = b := by
  have hvalue (n : Nat) : Nat.ofDigitChars 10 (padLeft '0' 4 (natural n)) 0 = n := by
    unfold padLeft
    rw [Nat.ofDigitChars_append, Nat.ofDigitChars_replicate_zero, Nat.mul_zero]
    exact Nat.ofDigitChars_ten_toDigits
  rw [← hvalue a, ← hvalue b, List.append_cancel_left h]

/-! ## Operands -/

theorem parseValue_name (r : Register) : Operand.parseValue r.name.toList = .ok (.register r) := by
  cases r <;> decide +kernel

theorem parseValue_labelName (a : Nat) :
    Operand.parseValue (labelName a) = .ok (.label (labelName a)) := by
  unfold Operand.parseValue
  rw [ofName?_labelName]
  dsimp only
  rw [if_pos (isName_labelName a)]

theorem parseValue_of_decimal {s : Text} {t : Tryte} (h : Decimal s t) :
    Operand.parseValue s = .ok (.literal t) := by
  unfold Operand.parseValue
  rw [h.ofName?_eq_none]
  dsimp only
  rw [h.isName_eq_false, h.encode_eq_ok]
  rfl

/-- What holds no separator has no white space around it. -/
theorem trim_of_separates {s : Text} (h : ∀ c ∈ s, isSeparator c = false) : trim s = s := by
  have hblank {c : Char} (hc : c ∈ s) : isBlank c = false := by
    have hseparates := h c hc
    unfold isSeparator at hseparates
    exact (Bool.or_eq_false_iff.1 hseparates).2
  exact trim_eq_self (fun c hc => hblank (List.mem_of_mem_head? hc))
    (fun c hc => hblank (List.mem_of_getLast? hc))

/-- Brackets are taken off, if there are any. -/
theorem parse_bracket {s : Text} {v : Operand.Value} (hs : '[' ∉ s)
    (hseparates : ∀ c ∈ s, isSeparator c = false) (hv : Operand.parseValue s = .ok v)
    (memory : Bool) :
    Operand.parse (Argument.bracket memory s) = .ok ⟨Argument.bracket memory s, memory, v⟩ := by
  have hunbracket : Operand.unbracket? (Argument.bracket memory s) =
      if memory then some s else none := by
    cases memory with
    | true =>
      change (if (s ++ [']']).getLast? = some ']' then some (trim (s ++ [']']).dropLast)
        else none) = some s
      rw [List.getLast?_concat, if_pos rfl, List.dropLast_concat, trim_of_separates hseparates]
    | false =>
      change Operand.unbracket? s = none
      unfold Operand.unbracket?
      split
      · exact absurd List.mem_cons_self hs
      · rfl
  have hvalue : (Operand.unbracket? (Argument.bracket memory s)).getD
      (Argument.bracket memory s) = s := by
    rw [hunbracket]
    cases memory <;> rfl
  have hmemory : (Operand.unbracket? (Argument.bracket memory s)).isSome = memory := by
    rw [hunbracket]
    cases memory <;> rfl
  unfold Operand.parse
  rw [hvalue, hv, hmemory]

namespace Argument

/-- What an operand read from the text of an argument holds. -/
def Value.Denotes (labels : List Nat) : Argument.Value → Operand.Value → Prop
  | .register r, v => v = .register r
  | .unknown, _ => False
  | .immediate n, v => ∃ t, v = .literal t ∧ t.toInt = n
  | .branch n target, v =>
    if 0 ≤ target ∧ target.toNat ∈ labels then v = .label (labelName target.toNat)
    else ∃ t, v = .literal t ∧ t.toInt = n

/-- The argument is known, its value fits into a tryte, and a branch does not go through memory. -/
def Readable (a : Argument) : Prop :=
  match a.value with
  | .register _ => True
  | .unknown => False
  | .immediate n => ∃ t : Tryte, t.toInt = n
  | .branch n _ => a.memory = false ∧ ∃ t : Tryte, t.toInt = n

theorem token_bracket {s : Text} (h : Token s) (memory : Bool) : Token (bracket memory s) := by
  cases memory with
  | true =>
    refine ⟨List.cons_ne_nil _ _, List.forall_mem_cons.2 ⟨by decide, ?_⟩⟩
    exact List.forall_mem_append.2 ⟨h.plain, List.forall_mem_singleton.2 (by decide)⟩
  | false => exact h

theorem token_registerName (r : Register) : Token r.name.toList := by
  cases r <;> exact token_of_all (by decide) (by decide)

theorem token_text (labels : List Nat) (a : Argument) : Token (a.text labels) := by
  unfold text
  cases a.value with
  | register r => exact token_bracket (token_registerName r) _
  | unknown => exact token_bracket (token_of_all (by decide) (by decide)) _
  | immediate n => exact token_bracket (token_integer n) _
  | branch n target =>
    dsimp only
    split
    · exact token_labelName _
    · exact token_bracket (token_signedInteger n) _

/-- The text of an argument is read back as what it stands for. -/
theorem parse_text (labels : List Nat) {a : Argument} (h : a.Readable) :
    ∃ o, Operand.parse (a.text labels) = .ok o ∧ o.memory = a.memory ∧
      a.value.Denotes labels o.value := by
  have hdecimal {s : Text} {t : Tryte} (hs : Decimal s t) : '[' ∉ s := fun hmem =>
    absurd (hs.chars _ hmem) (by decide)
  unfold Readable at h
  unfold text
  cases hvalue : a.value with
  | register r =>
    have hname : '[' ∉ r.name.toList := by
      cases r <;> decide
    exact ⟨_, parse_bracket hname (token_registerName r).separates (parseValue_name r) a.memory,
      rfl, rfl⟩
  | unknown =>
    rw [hvalue] at h
    exact h.elim
  | immediate n =>
    rw [hvalue] at h
    obtain ⟨t, rfl⟩ := h
    exact ⟨_, parse_bracket (hdecimal (decimal_integer t)) (token_integer _).separates
      (parseValue_of_decimal (decimal_integer t)) a.memory, rfl, t, rfl, rfl⟩
  | branch n target =>
    rw [hvalue] at h
    obtain ⟨hmemory, t, rfl⟩ := h
    rw [hmemory]
    dsimp only [Value.Denotes]
    split
    · have hlabel : '[' ∉ labelName target.toNat := fun hmem =>
        absurd (mem_labelName hmem) (by decide)
      exact ⟨_, parse_bracket hlabel (token_labelName _).separates (parseValue_labelName _) false,
        rfl, rfl⟩
    · exact ⟨_, parse_bracket (hdecimal (decimal_signedInteger t)) (token_signedInteger _).separates
        (parseValue_of_decimal (decimal_signedInteger t)) false, rfl, t, rfl, rfl⟩

theorem mode_of_denotes {labels : List Nat} {a : Argument} {o : Operand}
    (hmemory : o.memory = a.memory) (h : a.value.Denotes labels o.value) : o.mode = a.mode := by
  unfold Operand.mode Argument.mode
  rw [hmemory]
  cases hvalue : a.value with
  | register r =>
    rw [hvalue] at h
    rw [show o.value = .register r from h]
    cases a.memory <;> rfl
  | unknown =>
    rw [hvalue] at h
    exact h.elim
  | immediate n =>
    rw [hvalue] at h
    obtain ⟨t, ht, -⟩ := h
    rw [ht]
    cases a.memory <;> rfl
  | branch n target =>
    rw [hvalue] at h
    dsimp only [Value.Denotes] at h
    split at h
    · rw [h]
      cases a.memory <;> rfl
    · obtain ⟨t, ht, -⟩ := h
      rw [ht]
      cases a.memory <;> rfl

/-- The fault of an operand that is printed for an unknown register. -/
def unknownRegister : Fault := .operand ['r', '?'] (.notInteger ['r', '?'])

/-- An unknown register has no text that can be read. -/
theorem parse_text_unknown (labels : List Nat) {a : Argument} (hmode : a.mode = .register)
    (h : a.value = .unknown) : Operand.parse (a.text labels) = .error unknownRegister := by
  have hmemory : a.memory = false := by
    unfold Argument.mode at hmode
    rw [h] at hmode
    cases hm : a.memory with
    | true =>
      rw [hm] at hmode
      exact nomatch hmode
    | false => rfl
  have htext : a.text labels = ['r', '?'] := by
    unfold text
    rw [h, hmemory]
    rfl
  rw [htext]
  decide +kernel

end Argument

end Disassembly

end BalancedTernary
