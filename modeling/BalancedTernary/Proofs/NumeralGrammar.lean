import BalancedTernary.Proofs.Notation
import BalancedTernary.Proofs.Text

/-!
# The grammar of numerals

Which texts are numerals of a given width, and which integers they denote. The grammar is stated
without the reader; the reader accepts exactly what is written by it, and gives the word with the
value that is denoted.
-/

namespace BalancedTernary

/-! ## Decimals -/

namespace Text

/-- At least one decimal digit, and the number that the digits denote. -/
structure Magnitude (s : Text) (n : Nat) : Prop where
  ne_nil : s ≠ []
  isDigit : ∀ c ∈ s, c.isDigit = true
  value : Nat.ofDigitChars 10 s 0 = n

/-- A decimal with one sign or none, and the integer that it denotes. -/
inductive SignedDecimal : Text → Int → Prop where
  | unsigned {s : Text} {n : Nat} (h : Magnitude s n) : SignedDecimal s n
  | plus {s : Text} {n : Nat} (h : Magnitude s n) : SignedDecimal ('+' :: s) n
  | minus {s : Text} {n : Nat} (h : Magnitude s n) : SignedDecimal ('-' :: s) (-n)

/-- A text of digits does not start with a sign. -/
theorem Magnitude.isDigit_head {c : Char} {s : Text} {n : Nat} (h : Magnitude (c :: s) n) :
    c.isDigit = true :=
  h.isDigit c List.mem_cons_self

theorem digit?_eq_some_iff {c : Char} {d : Nat} :
    digit? 10 c = some d ↔ c.isDigit = true ∧ c.toNat - '0'.toNat = d := by
  by_cases hc : c.isDigit = true
  · rw [digit?_of_isDigit hc]
    simp [hc]
  · -- Letters count from ten on, which is no digit in base ten.
    have hnone : digit? 10 c = none := by
      unfold digit?
      rw [if_neg hc]
      dsimp only
      split
      · rw [Option.filter_some, if_neg (by simp)]
      · split
        · rw [Option.filter_some, if_neg (by simp)]
        · rfl
    rw [hnone]
    simp [hc]

theorem readDigits_eq_ok_iff {s : Text} {value n : Nat} (hvalue : value < unsignedLimit) :
    readDigits 10 value s = .ok n ↔
      (∀ c ∈ s, c.isDigit = true) ∧ Nat.ofDigitChars 10 s value = n ∧ n < unsignedLimit := by
  constructor
  · intro h
    induction s generalizing value with
    | nil =>
      obtain rfl : value = n := Except.ok.inj h
      exact ⟨List.forall_mem_nil _, rfl, hvalue⟩
    | cons c s ih =>
      rw [readDigits] at h
      cases hd : digit? 10 c with
      | none =>
        rw [hd] at h
        cases h
      | some d =>
        rw [hd] at h
        dsimp only at h
        obtain ⟨hc, rfl⟩ := digit?_eq_some_iff.1 hd
        split at h
        · cases h
        · rename_i hlimit
          obtain ⟨hs, hn, hlt⟩ := ih (not_le.1 hlimit) h
          refine ⟨List.forall_mem_cons.2 ⟨hc, hs⟩, ?_, hlt⟩
          rw [Nat.ofDigitChars_cons, Nat.mul_comm, hn]
  · rintro ⟨hs, rfl, hlt⟩
    exact readDigits_of_digits hs hlt

theorem readNatural_eq_ok_iff {s : Text} {n : Nat} :
    readNatural s = .ok n ↔ Magnitude s n ∧ n < unsignedLimit := by
  unfold readNatural
  split
  · rename_i hempty
    constructor
    · intro h
      cases h
    · intro h
      exact absurd (List.isEmpty_iff.1 hempty) h.1.ne_nil
  · rename_i hne
    rw [readDigits_eq_ok_iff (by decide)]
    constructor
    · rintro ⟨hs, hn, hlt⟩
      exact ⟨⟨by simpa using hne, hs, hn⟩, hlt⟩
    · rintro ⟨h, hlt⟩
      exact ⟨h.isDigit, h.value, hlt⟩

section Signed

variable {s : Text} {n : Nat} {v : Int64}

theorem ofInt_eq_iff {x : Int} (hlo : -2 ^ 63 ≤ x) (hhi : x < 2 ^ 63) :
    Int64.ofInt x = v ↔ v.toInt = x := by
  constructor
  · rintro rfl
    exact Int64.toInt_ofInt_of_le hlo hhi
  · rintro rfl
    exact Int64.ofInt_toInt v

theorem ofMagnitude_eq_ok_iff {negative : Bool} :
    ofMagnitude negative n = .ok v ↔ v.toInt = if negative then -(n : Int) else n := by
  have hlo := v.le_toInt
  have hhi := v.toInt_lt
  unfold ofMagnitude signedLimit
  -- There is one negative number more than there are positive ones.
  cases negative with
  | true =>
    simp only [if_true]
    split
    · rw [Except.ok.injEq, ofInt_eq_iff (by omega) (by omega)]
    · simp only [reduceCtorEq, false_iff]
      omega
  | false =>
    simp only [Bool.false_eq_true, if_false]
    split
    · rw [Except.ok.injEq, ofInt_eq_iff (by omega) (by omega)]
    · simp only [reduceCtorEq, false_iff]
      omega

theorem readMagnitude_eq_ok_iff {negative : Bool} :
    readNatural s >>= ofMagnitude negative = .ok v ↔
      ∃ n, Magnitude s n ∧ v.toInt = if negative then -(n : Int) else n := by
  have hlo := v.le_toInt
  have hhi := v.toInt_lt
  rw [Outcome.bind_eq_ok]
  refine exists_congr fun n => ?_
  rw [readNatural_eq_ok_iff, ofMagnitude_eq_ok_iff, and_assoc]
  refine and_congr_right fun _ => and_iff_right_of_imp fun h => ?_
  -- What 64 bits hold with a sign, they hold without one.
  unfold unsignedLimit
  cases negative <;> simp at h <;> omega

/-- The decimals that are read are those whose value 64 bits hold. -/
theorem readDecimal_eq_ok_iff : readDecimal s = .ok v ↔ SignedDecimal s v.toInt := by
  unfold readDecimal readSigned
  split
  · rename_i s
    rw [readMagnitude_eq_ok_iff]
    constructor
    · rintro ⟨n, hn, hv⟩
      rw [hv]
      exact .minus hn
    · intro h
      generalize v.toInt = x at h ⊢
      cases h with
      | unsigned hn => exact absurd hn.isDigit_head (by decide)
      | minus hn => exact ⟨_, hn, rfl⟩
  · rename_i s
    rw [readMagnitude_eq_ok_iff]
    constructor
    · rintro ⟨n, hn, hv⟩
      rw [hv]
      exact .plus hn
    · intro h
      generalize v.toInt = x at h ⊢
      cases h with
      | unsigned hn => exact absurd hn.isDigit_head (by decide)
      | plus hn => exact ⟨_, hn, rfl⟩
  · rename_i hminus hplus
    rw [readMagnitude_eq_ok_iff]
    constructor
    · rintro ⟨n, hn, hv⟩
      rw [hv]
      exact .unsigned hn
    · intro h
      generalize v.toInt = x at h ⊢
      cases h with
      | unsigned hn => exact ⟨_, hn, rfl⟩
      | plus hn => exact absurd rfl (hplus _)
      | minus hn => exact absurd rfl (hminus _)

end Signed

end Text

/-! ## Values -/

namespace Numeral

/-- The integer that digits, the most significant first, denote in a base. -/
def positional (base : Int) (digits : List Int) : Int := digits.foldl (fun v d => base * v + d) 0

theorem positional_concat (base : Int) (digits : List Int) (d : Int) :
    positional base (digits ++ [d]) = base * positional base digits + d := by
  unfold positional
  rw [List.foldl_append]
  rfl

theorem positional_trits (ts : List Trit) : positional 3 (ts.map Trit.toInt) = Trit.value ts :=
  List.foldl_map

theorem positional_triads (ts : List Triad) :
    positional 27 (ts.map Triad.toInt) = Trit.value (ts.flatMap Triad.trits) := by
  induction ts using List.reverseRecOn with
  | nil => rfl
  | append_singleton ts t ih =>
    rw [List.map_append, List.map_singleton, positional_concat, ih, List.flatMap_append,
      Trit.value_append, List.flatMap_singleton]
    rfl

theorem positional_replicate_zero_append (base : Int) (k : Nat) (digits : List Int) :
    positional base (List.replicate k 0 ++ digits) = positional base digits := by
  induction k with
  | zero => rfl
  | succ k ih =>
    rw [← ih, List.replicate_succ]
    show List.foldl _ (base * 0 + 0) _ = _
    rw [mul_zero, add_zero]
    rfl

/-- Zeros in front do not count. -/
theorem positional_extend {α : Type} {toInt : α → Int} {zero : α} (hzero : toInt zero = 0)
    (base : Int) (count : Nat) (digits : List α) :
    positional base ((extend zero count digits).map toInt) =
      positional base (digits.map toInt) := by
  rw [extend, List.map_append, List.map_replicate, hzero, positional_replicate_zero_append]

/-! ## The grammar -/

/-- The glyphs of the trits, and their values. -/
def TritDigit (c : Char) (d : Int) : Prop :=
  (c = 'λ' ∧ d = -1) ∨ (c = '0' ∧ d = 0) ∨ (c = '1' ∧ d = 1)

/-- The digits in base 27 count from minus thirteen on, in the order of the table. -/
def TriadDigit (c : Char) (d : Int) : Prop :=
  ∃ i : Nat, Triad.symbols[i]? = some (Text.upperChar c) ∧ d = i - 13

/-- A text is a numeral of `n` trytes and denotes an integer. Trits and digits in base 27 are
counted as they are written; of a decimal it is the value that must not be too big. -/
inductive Written (n : Nat) : Text → Int → Prop where
  | trits {body : Text} {digits : List Int} (hne : body ≠ []) (hlen : body.length ≤ 6 * n)
      (hdigits : List.Forall₂ TritDigit body digits) :
      Written n ('0' :: 't' :: body) (positional 3 digits)
  | triads {body : Text} {digits : List Int} (hne : body ≠ []) (hlen : body.length ≤ 2 * n)
      (hdigits : List.Forall₂ TriadDigit body digits) :
      Written n ('0' :: 'x' :: body) (positional 27 digits)
  | decimal {s : Text} {v : Int} (hdecimal : Text.SignedDecimal s v)
      (hv : |v| ≤ (3 ^ (6 * n) - 1) / 2) : Written n s v

theorem tritDigit_iff {c : Char} {d : Int} :
    TritDigit c d ↔ ∃ t : Trit, c = t.glyph ∧ t.toInt = d := by
  constructor
  · rintro (⟨rfl, rfl⟩ | ⟨rfl, rfl⟩ | ⟨rfl, rfl⟩)
    · exact ⟨.neg, rfl, rfl⟩
    · exact ⟨.zero, rfl, rfl⟩
    · exact ⟨.pos, rfl, rfl⟩
  · rintro ⟨t, rfl, rfl⟩
    cases t with
    | neg => exact .inl ⟨rfl, rfl⟩
    | zero => exact .inr (.inl ⟨rfl, rfl⟩)
    | pos => exact .inr (.inr ⟨rfl, rfl⟩)

theorem triadDigit_iff {c : Char} {d : Int} :
    TriadDigit c d ↔ ∃ t : Triad, Triad.ofSymbol? c = some t ∧ t.toInt = d := by
  constructor
  · rintro ⟨i, hi, rfl⟩
    have hlt := (List.getElem?_eq_some_iff.1 hi).1
    rw [Triad.length_symbols] at hlt
    have htoInt : (Triad.ofInt (i - 13)).toInt = i - 13 := Triad.toInt_ofInt (by omega) (by omega)
    refine ⟨.ofInt (i - 13), Triad.ofSymbol?_eq_some_iff.2 ?_, htoInt⟩
    rw [htoInt, show ((i : Int) - 13 + 13).toNat = i by omega, hi]
  · rintro ⟨t, ht, rfl⟩
    have hbounds := t.toInt_bounds
    exact ⟨_, Triad.ofSymbol?_eq_some_iff.1 ht, by omega⟩

theorem forall₂_tritDigit_iff {body : Text} {digits : List Int} :
    List.Forall₂ TritDigit body digits ↔
      ∃ ts : List Trit, body = ts.map Trit.glyph ∧ ts.map Trit.toInt = digits := by
  rw [show TritDigit = fun c d => ∃ t : Trit, c = t.glyph ∧ t.toInt = d from
    funext₂ fun _ _ => propext tritDigit_iff, Outcome.forall₂_exists_iff]
  simp only [← List.forall₂_map_right_iff, List.forall₂_eq_eq_eq]

theorem forall₂_triadDigit_iff {body : Text} {digits : List Int} :
    List.Forall₂ TriadDigit body digits ↔ ∃ ts : List Triad,
      ts.map Triad.symbol = body.map Text.upperChar ∧ ts.map Triad.toInt = digits := by
  rw [show TriadDigit = fun c d => ∃ t, Triad.ofSymbol? c = some t ∧ t.toInt = d from
    funext₂ fun _ _ => propext triadDigit_iff, Outcome.forall₂_exists_iff]
  simp only [Triad.forall₂_ofSymbol?_iff]

/-! ## Reading by the grammar -/

section Words

variable {n : Nat}

theorem value_ofTrits_extend {ts : List Trit} (h : ts.length ≤ 6 * n) :
    (Word.ofTrits (extend .zero (6 * n) ts)).length = n ∧
      (Word.ofTrits (extend .zero (6 * n) ts)).value = positional 3 (ts.map Trit.toInt) := by
  have hlen : (extend Trit.zero (6 * n) ts).length = 6 * n := by
    rw [length_extend]
    omega
  refine ⟨Word.length_ofTrits hlen, ?_⟩
  rw [Word.value, Word.trits_ofTrits hlen, ← positional_trits,
    positional_extend (show Trit.toInt .zero = 0 from rfl)]

theorem value_ofTriads_extend {ts : List Triad} (h : ts.length ≤ 2 * n) :
    (Word.ofTriads (extend .zero (2 * n) ts)).length = n ∧
      (Word.ofTriads (extend .zero (2 * n) ts)).value = positional 27 (ts.map Triad.toInt) := by
  have hlen : (extend Triad.zero (2 * n) ts).length = 2 * n := by
    rw [length_extend]
    omega
  refine ⟨Word.length_ofTriads hlen, ?_⟩
  rw [Word.value, Word.trits_eq_flatMap, Word.triads_ofTriads hlen, ← positional_triads,
    positional_extend (show Triad.toInt .zero = 0 from rfl)]

/-- A word is known by its length and its value. -/
theorem exists_packed_iff {α : Type} {P : List α → Prop} {pack : List α → Word}
    {value : List α → Int}
    (hpack : ∀ ts, P ts → (pack ts).length = n ∧ (pack ts).value = value ts) {word : Word} :
    (∃ ts, P ts ∧ pack ts = word) ↔ word.length = n ∧ ∃ ts, P ts ∧ word.value = value ts := by
  constructor
  · rintro ⟨ts, hts, rfl⟩
    exact ⟨(hpack ts hts).1, ts, hts, (hpack ts hts).2⟩
  · rintro ⟨hlen, ts, hts, hvalue⟩
    obtain ⟨hlen', hvalue'⟩ := hpack ts hts
    exact ⟨ts, hts, Word.value_injective (hlen'.trans hlen.symm) (hvalue'.trans hvalue.symm)⟩

theorem abs_le_iff {v : Int} :
    |v| ≤ (3 ^ (6 * n) - 1) / 2 ↔ -(3 ^ (6 * n) : Int) < 2 * v ∧ 2 * v < 3 ^ (6 * n) := by
  -- A power of three is odd, so nothing is lost when the bound is halved.
  have hodd := Trit.three_pow_odd (6 * n)
  rw [abs_le]
  omega

/-- Every integer in the range of `n` trytes has a word. -/
theorem exists_word {v : Int} (h : |v| ≤ (3 ^ (6 * n) - 1) / 2) :
    ∃ word : Word, word.length = n ∧ word.value = v := by
  obtain ⟨hlo, hhi⟩ := abs_le_iff.1 h
  refine ⟨.ofTrits (Trit.expand (6 * n) v), Word.length_ofTrits (Trit.length_expand _ _), ?_⟩
  rw [Word.value, Word.trits_ofTrits (Trit.length_expand _ _), Trit.value_expand _ _ hlo hhi]

end Words

section Encode

variable {s literal body : Text} {w : Width} {n : Nat} {word : Word}

/-- Digits that are read one by one from their characters, as characters with their values. -/
theorem exists_digits_iff {α : Type} {toInt : α → Int} {R : List α → Prop}
    {D : Char → Int → Prop} {base v : Int} {limit : Nat}
    (hdigits : ∀ digits, List.Forall₂ D body digits ↔ ∃ ts, R ts ∧ ts.map toInt = digits) :
    (∃ ts, (body ≠ [] ∧ (body.length : Int) ≤ limit ∧ R ts) ∧ v = positional base (ts.map toInt)) ↔
      ∃ digits, (body ≠ [] ∧ body.length ≤ limit ∧ List.Forall₂ D body digits) ∧
        v = positional base digits := by
  simp only [hdigits]
  constructor
  · rintro ⟨ts, ⟨hne, hle, hts⟩, hv⟩
    exact ⟨_, ⟨hne, by omega, ts, hts, rfl⟩, hv⟩
  · rintro ⟨_, ⟨hne, hle, ts, hts, rfl⟩, hv⟩
    exact ⟨ts, ⟨hne, by omega, hts⟩, hv⟩

theorem encodeTrits_written (hw : w.trits.toInt = 6 * n) :
    encodeTrits literal body w = .ok word ↔ word.length = n ∧ ∃ digits,
      (body ≠ [] ∧ body.length ≤ 6 * n ∧ List.Forall₂ TritDigit body digits) ∧
        word.value = positional 3 digits := by
  have hlimit : w.trits.toInt = (6 * n : Nat) := by omega
  rw [encodeTrits_eq_ok_iff, hlimit, Int.toNat_natCast,
    exists_packed_iff fun ts hts => value_ofTrits_extend ?_,
    exists_digits_iff fun _ => forall₂_tritDigit_iff]
  have hlen := congrArg List.length hts.2.2
  rw [List.length_map] at hlen
  omega

theorem encodeTriads_written (hw : w.triads.toInt = 2 * n) :
    encodeTriads literal body w = .ok word ↔ word.length = n ∧ ∃ digits,
      (body ≠ [] ∧ body.length ≤ 2 * n ∧ List.Forall₂ TriadDigit body digits) ∧
        word.value = positional 27 digits := by
  have hlimit : w.triads.toInt = (2 * n : Nat) := by omega
  rw [encodeTriads_eq_ok_iff, hlimit, Int.toNat_natCast,
    exists_packed_iff fun ts hts => value_ofTriads_extend ?_,
    exists_digits_iff fun _ => forall₂_triadDigit_iff]
  have hlen := congrArg List.length hts.2.2
  rw [List.length_map, List.length_map] at hlen
  omega

/-- What 64 bits hold goes through the reader unchanged, and every word of the width is that
small. -/
theorem encodeDecimal_written (hw : w.trytes.toInt = n) (hn : n ≤ 6) :
    encodeDecimal literal w = .ok word ↔
      word.length = n ∧ Text.SignedDecimal literal word.value := by
  unfold encodeDecimal
  constructor
  · intro h
    split at h
    · cases h
    · cases h
    · rename_i v hv
      split at h
      · cases h
      · rename_i u hu
        obtain rfl : u = word := Except.ok.inj h
        refine ⟨Word.length_of_ofInt hw hn hu, ?_⟩
        rw [Word.value_of_ofInt hw hn hu]
        exact Text.readDecimal_eq_ok_iff.1 hv
  · rintro ⟨hlen, hdecimal⟩
    have htoInt : word.toInt64.toInt = word.value := Word.toInt_toInt64 (hlen.trans_le hn)
    have hread : Text.readDecimal literal = .ok word.toInt64 := by
      rw [Text.readDecimal_eq_ok_iff, htoInt]
      exact hdecimal
    simp only [hread, Word.ofInt_of_toInt_eq_value hw hn hlen htoInt]

/-- The letter of a notation is no decimal digit, so the three notations do not overlap. -/
theorem not_signedDecimal_of_letter {c : Char} {v : Int} (hc : c.isDigit = false) :
    ¬ Text.SignedDecimal ('0' :: c :: body) v := by
  intro h
  cases h with
  | unsigned hn =>
    have hdigit := hn.isDigit c (List.mem_cons_of_mem _ List.mem_cons_self)
    rw [hc] at hdigit
    cases hdigit

/-- The reader accepts exactly the numerals of the width, each for the word with its value. -/
theorem encode_eq_ok_iff (hw : w.trytes.toInt = n) (hn : n ≤ 6) :
    encode s w = .ok word ↔ word.length = n ∧ Written n s word.value := by
  unfold encode
  split
  · rename_i body
    rw [encodeTrits_written (Width.toInt_trits hw hn)]
    refine and_congr_right fun _ => ?_
    constructor
    · rintro ⟨digits, ⟨hne, hle, hdigits⟩, hvalue⟩
      rw [hvalue]
      exact .trits hne hle hdigits
    · intro h
      generalize word.value = v at h ⊢
      cases h with
      | trits hne hle hdigits => exact ⟨_, ⟨hne, hle, hdigits⟩, rfl⟩
      | decimal h => exact absurd h (not_signedDecimal_of_letter (by decide))
  · rename_i body
    rw [encodeTriads_written (Width.toInt_triads hw hn)]
    refine and_congr_right fun _ => ?_
    constructor
    · rintro ⟨digits, ⟨hne, hle, hdigits⟩, hvalue⟩
      rw [hvalue]
      exact .triads hne hle hdigits
    · intro h
      generalize word.value = v at h ⊢
      cases h with
      | triads hne hle hdigits => exact ⟨_, ⟨hne, hle, hdigits⟩, rfl⟩
      | decimal h => exact absurd h (not_signedDecimal_of_letter (by decide))
  · rename_i htrits htriads
    rw [encodeDecimal_written hw hn]
    refine and_congr_right fun hlen => ?_
    constructor
    · intro h
      exact .decimal h (abs_le_iff.2 (Word.value_bounds hlen.le))
    · intro h
      generalize word.value = v at h ⊢
      cases h with
      | trits => exact absurd rfl (htrits _)
      | triads => exact absurd rfl (htriads _)
      | decimal h => exact h

/-- What is denoted fits the width in every notation. -/
theorem Written.exists_word {v : Int} (h : Written n s v) :
    ∃ word : Word, word.length = n ∧ word.value = v := by
  cases h with
  | trits hne hlen hdigits =>
    obtain ⟨ts, rfl, rfl⟩ := forall₂_tritDigit_iff.1 hdigits
    rw [List.length_map] at hlen
    exact ⟨_, value_ofTrits_extend hlen⟩
  | triads hne hlen hdigits =>
    obtain ⟨ts, hts, rfl⟩ := forall₂_triadDigit_iff.1 hdigits
    have hcount := congrArg List.length hts
    rw [List.length_map, List.length_map] at hcount
    exact ⟨_, value_ofTriads_extend (hcount.trans_le hlen)⟩
  | decimal hdecimal hv => exact Numeral.exists_word hv

theorem kind_of_encodeTrits {fault : Fault} (hw : w.trits.toInt = 6 * n)
    (h : encodeTrits literal body w = .error fault) :
    fault.kind = if 6 * n < body.length then .valueOutOfRange else .invalidNumeral := by
  rw [encodeTrits_eq, Outcome.map_eq_error, hw] at h
  rw [kind_of_readBody (by omega) rfl rfl (fun _ => rfl) h]
  exact if_congr (by omega) rfl rfl

theorem kind_of_encodeTriads {fault : Fault} (hw : w.triads.toInt = 2 * n)
    (h : encodeTriads literal body w = .error fault) :
    fault.kind = if 2 * n < body.length then .valueOutOfRange else .invalidNumeral := by
  rw [encodeTriads_eq, Outcome.map_eq_error, hw] at h
  rw [kind_of_readBody (by omega) rfl rfl (fun _ => rfl) h]
  exact if_congr (by omega) rfl rfl

end Encode

/-- The texts that are read at a width are the numerals of that width, each as the word with the
value that it denotes. In the two prefixed notations the fault tells whether there were too many
digits. -/
theorem encode_grammar {w : Width} {n : Nat} (hw : w.trytes.toInt = n) (hn : n ≤ 6) (s : Text) :
    ((∃ word, encode s w = .ok word) ↔ ∃ v, Written n s v) ∧
    (∀ v, Written n s v →
      ∃ word, encode s w = .ok word ∧ word.length = n ∧ word.toInt64.toInt = v) ∧
    (∀ body fault, s = '0' :: 't' :: body → encode s w = .error fault →
      fault.kind = if 6 * n < body.length then .valueOutOfRange else .invalidNumeral) ∧
    (∀ body fault, s = '0' :: 'x' :: body → encode s w = .error fault →
      fault.kind = if 2 * n < body.length then .valueOutOfRange else .invalidNumeral) := by
  have hread : ∀ v, Written n s v →
      ∃ word, encode s w = .ok word ∧ word.length = n ∧ word.toInt64.toInt = v := by
    intro v hv
    obtain ⟨word, hlen, rfl⟩ := hv.exists_word
    exact ⟨word, (encode_eq_ok_iff hw hn).2 ⟨hlen, hv⟩, hlen, Word.toInt_toInt64 (hlen.trans_le hn)⟩
  refine ⟨⟨?_, ?_⟩, hread, ?_, ?_⟩
  · rintro ⟨word, hword⟩
    exact ⟨word.value, ((encode_eq_ok_iff hw hn).1 hword).2⟩
  · rintro ⟨v, hv⟩
    obtain ⟨word, hword, -⟩ := hread v hv
    exact ⟨word, hword⟩
  · rintro body fault rfl h
    exact kind_of_encodeTrits (Width.toInt_trits hw hn) h
  · rintro body fault rfl h
    exact kind_of_encodeTriads (Width.toInt_triads hw hn) h

/-- A zero in front of a decimal does not count, and a digit too many is found before one that is
no digit. -/
theorem quad_grammar :
    Width.quad.trytes.toInt = (4 : Nat) ∧
    (∃ word, encode "-0141214768240".toList .quad = .ok word ∧ word.length = 4 ∧
      word.toInt64.toInt = -141214768240) ∧
    (¬ ∃ word, encode "+-1".toList .quad = .ok word) ∧
    ∃ fault, encode "0x?????????".toList .quad = .error fault ∧ fault.kind = .valueOutOfRange := by
  have hquad := encode_grammar (w := .quad) (n := 4) rfl (by decide)
  have hdecimal : Written 4 "-0141214768240".toList (-141214768240) := by
    refine .decimal (.minus (n := 141214768240) ⟨?_, ?_, ?_⟩) (by decide)
    · decide
    · exact List.all_eq_true.1 (by decide)
    · decide
  refine ⟨rfl, (hquad _).2.1 _ hdecimal, mt (hquad _).1.1 ?_, ?_⟩
  · rintro ⟨v, hv⟩
    cases hv with
    | decimal h hle =>
      cases h with
      | unsigned h => exact absurd h.isDigit_head (by decide)
      | plus h => exact absurd h.isDigit_head (by decide)
  · obtain ⟨fault, hfault⟩ : ∃ fault, encode "0x?????????".toList .quad = .error fault := ⟨_, rfl⟩
    exact ⟨fault, hfault, (hquad _).2.2.2 "?????????".toList fault rfl hfault⟩

end Numeral

end BalancedTernary
