import BalancedTernary.Proofs.Extent

/-!
# Notations of numerals

The trits of a word are written as glyphs, and its triads as digits in base 27. Reading inverts both
at the width of the word: a word is read from its own digits, and digits that fill the width are
those of the word that is read from them.
-/

namespace BalancedTernary

/-! ## Digits in base 27 -/

namespace Triad

theorem toInt_bounds (t : Triad) : -13 ≤ t.toInt ∧ t.toInt ≤ 13 := by
  have h : -27 < 2 * t.toInt ∧ 2 * t.toInt < 27 := Trit.two_mul_value_bounds t.trits
  omega

theorem toInt_injective {s t : Triad} (h : s.toInt = t.toInt) : s = t := by
  have htrits : s.trits = t.trits := Trit.value_injective rfl h
  obtain ⟨a, b, c⟩ := s
  obtain ⟨d, e, f⟩ := t
  simpa [trits] using htrits

theorem toInt_ofInt {v : Int} (hlo : -13 ≤ v) (hhi : v ≤ 13) : (ofInt v).toInt = v := by
  show Trit.value (Trit.expand 3 v) = v
  apply Trit.value_expand <;> omega

theorem length_symbols : symbols.length = 27 := by decide

/-- No digit stands twice in the table, so it is found at its own place. -/
theorem idxOf?_symbols {c : Char} {i : Nat} :
    symbols.idxOf? c = some i ↔ symbols[i]? = some c := by
  have hnodup : symbols.Nodup := by decide
  rw [List.idxOf?_eq_some_iff, List.getElem?_eq_some_iff]
  refine exists_congr fun hi => and_iff_left_of_imp ?_
  rintro rfl j hj heq
  have hij := (List.getElem_inj hnodup).1 heq
  omega

/-- A digit stands for the triad whose value, counted from minus thirteen, is its place in the
table. -/
theorem ofSymbol?_eq_some_iff {c : Char} {t : Triad} :
    ofSymbol? c = some t ↔ symbols[(t.toInt + 13).toNat]? = some (Text.upperChar c) := by
  have hbounds := t.toInt_bounds
  unfold ofSymbol?
  rw [Option.map_eq_some_iff]
  constructor
  · rintro ⟨v, hv, rfl⟩
    obtain ⟨i, hi, hv⟩ := Option.bind_eq_some_iff.1 hv
    obtain rfl : (i : Int) = v := Option.some.inj hv
    rw [idxOf?_symbols] at hi
    have hlt := (List.getElem?_eq_some_iff.1 hi).1
    rw [length_symbols] at hlt
    rw [toInt_ofInt (by omega) (by omega), show ((i : Int) - 13 + 13).toNat = i by omega, hi]
  · intro h
    refine ⟨_, Option.bind_eq_some_iff.2 ⟨_, idxOf?_symbols.2 h, rfl⟩, toInt_injective ?_⟩
    rw [toInt_ofInt] <;> omega

theorem getElem?_symbols (t : Triad) : symbols[(t.toInt + 13).toNat]? = some t.symbol := by
  have hbounds := t.toInt_bounds
  have hlt : (t.toInt + 13).toNat < symbols.length := by
    rw [length_symbols]
    omega
  rw [symbol, List.getD_eq_getElem?_getD, List.getElem?_eq_getElem hlt, Option.getD_some]

theorem ofSymbol?_eq_some_iff_symbol {c : Char} {t : Triad} :
    ofSymbol? c = some t ↔ t.symbol = Text.upperChar c := by
  rw [ofSymbol?_eq_some_iff, getElem?_symbols, Option.some_inj]

theorem forall₂_ofSymbol?_iff {body : Text} {ts : List Triad} :
    List.Forall₂ (fun c t => ofSymbol? c = some t) body ts ↔
      ts.map symbol = body.map Text.upperChar := by
  simp only [ofSymbol?_eq_some_iff_symbol]
  rw [← List.forall₂_eq_eq_eq, List.forall₂_map_left_iff, List.forall₂_map_right_iff]
  exact ⟨List.Forall₂.flip, List.Forall₂.flip⟩

/-- The table has capitals only. -/
theorem upperChar_symbol (t : Triad) : Text.upperChar t.symbol = t.symbol := by
  have htable : symbols.all (fun c => Text.upperChar c == c) = true := by decide
  exact beq_iff_eq.1 (List.all_eq_true.1 htable _ (List.mem_of_getElem? t.getElem?_symbols))

end Triad

/-! ## Words and their triads -/

namespace Word

def triads (w : Word) : List Triad := w.flatMap fun t => [t.high, t.low]

@[simp] theorem triads_cons (t : Tryte) (w : Word) :
    triads (t :: w) = t.high :: t.low :: triads w :=
  rfl

theorem length_triads (w : Word) : w.triads.length = 2 * w.length := by
  induction w with
  | nil => rfl
  | cons t w ih =>
    simp only [triads_cons, List.length_cons, ih]
    omega

theorem trits_eq_flatMap (w : Word) : w.trits = w.triads.flatMap Triad.trits := by
  induction w with
  | nil => rfl
  | cons t w ih =>
    rw [trits_cons, ih, triads_cons, List.flatMap_cons, List.flatMap_cons, ← List.append_assoc]
    rfl

theorem symbols_eq_map (w : Word) : w.symbols = w.triads.map Triad.symbol := by
  induction w with
  | nil => rfl
  | cons t w ih =>
    show t.high.symbol :: t.low.symbol :: symbols w = _
    rw [ih]
    rfl

@[simp] theorem ofTriads_triads (w : Word) : ofTriads w.triads = w := by
  induction w with
  | nil => rfl
  | cons t w ih =>
    show t :: ofTriads (triads w) = t :: w
    rw [ih]

theorem triads_ofTriads {n : Nat} {ts : List Triad} (h : ts.length = 2 * n) :
    (ofTriads ts).triads = ts := by
  induction n generalizing ts with
  | zero =>
    rw [List.length_eq_zero_iff.1 h]
    rfl
  | succ n ih =>
    match ts, h with
    | a :: b :: rest, h =>
      simp only [List.length_cons] at h
      show a :: b :: (ofTriads rest).triads = a :: b :: rest
      rw [ih (by omega)]

end Word

/-! ## Reading -/

namespace Numeral

theorem readAll_eq_ok_iff {α : Type} {digit? : Char → Option α} {s : Text} {digits : List α} :
    readAll digit? s = .ok digits ↔ List.Forall₂ (fun c d => digit? c = some d) s digits := by
  induction s generalizing digits with
  | nil =>
    rw [readAll, List.forall₂_nil_left_iff, Except.ok.injEq, eq_comm]
  | cons c s ih =>
    rw [readAll, List.forall₂_cons_left_iff]
    cases hc : digit? c with
    | none => simp
    | some d =>
      dsimp only
      rw [Outcome.map_eq_ok]
      simp [ih, eq_comm]

theorem extend_of_length_eq {α : Type} {zero : α} {count : Nat} {digits : List α}
    (h : digits.length = count) : extend zero count digits = digits := by
  rw [extend, h, Nat.sub_self]
  rfl

/-- Reads the digits of a body, of which there is at least one and no more than `limit`. -/
def readBody {α : Type} (digit? : Char → Option α) (limit : Int) (empty long : Fault)
    (bad : Char → Fault) (body : Text) : Except Fault (List α) :=
  if body.isEmpty then .error empty
  else if limit < body.length then .error long
  else (readAll digit? body).mapError bad

section Bodies

variable {α : Type} {digit? : Char → Option α} {limit : Int} {empty long : Fault}
  {bad : Char → Fault} {body : Text}

theorem readBody_eq_ok_iff {digits : List α} :
    readBody digit? limit empty long bad body = .ok digits ↔
      body ≠ [] ∧ (body.length : Int) ≤ limit ∧
        List.Forall₂ (fun c d => digit? c = some d) body digits := by
  rw [← readAll_eq_ok_iff]
  unfold readBody
  split
  · rename_i hempty
    simp [List.isEmpty_iff.1 hempty]
  · rename_i hne
    have hne : body ≠ [] := by simpa using hne
    split
    · rename_i hlong
      simp [not_le.2 hlong]
    · rename_i hshort
      cases readAll digit? body <;> simp [Except.mapError, hne, not_lt.1 hshort]

/-- The digits are counted before they are looked at. -/
theorem kind_of_readBody {fault : Fault} (hlimit : 0 ≤ limit)
    (hempty : empty.kind = .invalidNumeral) (hlong : long.kind = .valueOutOfRange)
    (hbad : ∀ c, (bad c).kind = .invalidNumeral)
    (h : readBody digit? limit empty long bad body = .error fault) :
    fault.kind = if limit < body.length then .valueOutOfRange else .invalidNumeral := by
  unfold readBody at h
  split at h
  · rename_i hnil
    have hshort : ¬ limit < body.length := by
      rw [List.isEmpty_iff.1 hnil]
      exact not_lt.2 hlimit
    rw [← Except.error.inj h, if_neg hshort, hempty]
  · split at h
    · rename_i hmany
      rw [← Except.error.inj h, if_pos hmany, hlong]
    · rename_i hfew
      rw [if_neg hfew]
      cases hread : readAll digit? body with
      | ok digits =>
        rw [hread] at h
        cases h
      | error c =>
        rw [hread] at h
        rw [← Except.error.inj h, hbad]

end Bodies

theorem encodeTrits_eq (literal body : Text) (w : Width) :
    encodeTrits literal body w =
      (readBody Trit.ofGlyph? w.trits.toInt (.noDigits literal) (.tooManyTrits literal w)
        (.tritGlyph literal) body).map fun ts =>
          Word.ofTrits (extend .zero w.trits.toInt.toNat ts) := by
  unfold encodeTrits readBody
  split
  · rfl
  · split
    · rfl
    · cases readAll Trit.ofGlyph? body <;> rfl

theorem encodeTriads_eq (literal body : Text) (w : Width) :
    encodeTriads literal body w =
      (readBody Triad.ofSymbol? w.triads.toInt (.noDigits literal) (.tooManyTriads literal w)
        (fun _ => .triadSymbol literal) body).map fun ts =>
          Word.ofTriads (extend .zero w.triads.toInt.toNat ts) := by
  unfold encodeTriads readBody
  split
  · rfl
  · split
    · rfl
    · cases readAll Triad.ofSymbol? body <;> rfl

section Encode

variable {literal body : Text} {w : Width} {n : Nat} {word : Word}

/-- Which texts are read as trits, and what is read from them. -/
theorem encodeTrits_eq_ok_iff :
    encodeTrits literal body w = .ok word ↔ ∃ ts : List Trit,
      (body ≠ [] ∧ (body.length : Int) ≤ w.trits.toInt ∧ body = ts.map Trit.glyph) ∧
        Word.ofTrits (extend .zero w.trits.toInt.toNat ts) = word := by
  rw [encodeTrits_eq, Outcome.map_eq_ok]
  simp only [readBody_eq_ok_iff, Trit.ofGlyph?_eq_some_iff, ← List.forall₂_map_right_iff,
    List.forall₂_eq_eq_eq]

/-- Which texts are read as digits in base 27, and what is read from them. -/
theorem encodeTriads_eq_ok_iff :
    encodeTriads literal body w = .ok word ↔ ∃ ts : List Triad,
      (body ≠ [] ∧ (body.length : Int) ≤ w.triads.toInt ∧
        ts.map Triad.symbol = body.map Text.upperChar) ∧
          Word.ofTriads (extend .zero w.triads.toInt.toNat ts) = word := by
  rw [encodeTriads_eq, Outcome.map_eq_ok]
  simp only [readBody_eq_ok_iff, Triad.forall₂_ofSymbol?_iff]

/-! ## Writings that fill the width -/

theorem encodeTrits_glyphs (hw : w.trits.toInt = 6 * word.length) (hne : word ≠ []) :
    encodeTrits literal word.glyphs w = .ok word := by
  have hlen : word.glyphs.length = 6 * word.length := by
    rw [Word.glyphs, List.length_map, Word.length_trits]
  have hpos : 0 < word.length := List.length_pos_iff.2 hne
  rw [encodeTrits_eq_ok_iff]
  refine ⟨word.trits, ⟨List.ne_nil_of_length_pos (by omega), by omega, rfl⟩, ?_⟩
  rw [extend_of_length_eq (by rw [Word.length_trits]; omega), Word.ofTrits_trits]

theorem glyphs_of_encodeTrits (hw : w.trytes.toInt = n) (hlen : body.length = 6 * n)
    (h : encodeTrits literal body w = .ok word) : word.glyphs = body := by
  obtain ⟨ts, ⟨-, hle, rfl⟩, rfl⟩ := encodeTrits_eq_ok_iff.1 h
  -- 64 bits count the trits, or there would be too many of them.
  have hlt := w.trits.toInt_lt
  have htrits := Width.toInt_trits_of_lt hw (by omega)
  rw [List.length_map] at hlen
  rw [extend_of_length_eq (by omega), Word.glyphs, Word.trits_ofTrits hlen]

theorem encodeTriads_symbols (hw : w.triads.toInt = 2 * word.length) (hne : word ≠ []) :
    encodeTriads literal word.symbols w = .ok word := by
  have hlen : word.symbols.length = 2 * word.length := by
    rw [Word.symbols_eq_map, List.length_map, Word.length_triads]
  have hpos : 0 < word.length := List.length_pos_iff.2 hne
  have hupper : word.triads.map Triad.symbol = word.symbols.map Text.upperChar := by
    rw [Word.symbols_eq_map, List.map_map]
    exact List.map_congr_left fun t _ => t.upperChar_symbol.symm
  rw [encodeTriads_eq_ok_iff]
  refine ⟨word.triads, ⟨List.ne_nil_of_length_pos (by omega), by omega, hupper⟩, ?_⟩
  rw [extend_of_length_eq (by rw [Word.length_triads]; omega), Word.ofTriads_triads]

theorem symbols_of_encodeTriads (hw : w.trytes.toInt = n) (hlen : body.length = 2 * n)
    (h : encodeTriads literal body w = .ok word) : word.symbols = body.map Text.upperChar := by
  obtain ⟨ts, ⟨-, hle, hupper⟩, rfl⟩ := encodeTriads_eq_ok_iff.1 h
  have hlt := w.triads.toInt_lt
  have htriads := Width.toInt_triads_of_lt hw (by omega)
  have hcount := congrArg List.length hupper
  rw [List.length_map, List.length_map, hlen] at hcount
  rw [extend_of_length_eq (by omega), Word.symbols_eq_map, Word.triads_ofTriads hcount, hupper]

end Encode

/-- A word is read from its own glyphs and from its own digits in base 27, as long as 64 bits count
them. Where a text has as many characters as the width has places, the word that is read from it is
written with the same glyphs, or with the same digits in capitals. -/
theorem encode_exact_width {w : Width} {n : Nat} (hw : w.trytes.toInt = n) :
    (∀ word : Word, word ≠ [] → word.length = n →
      (6 * n < 2 ^ 63 → encode ('0' :: 't' :: word.glyphs) w = .ok word) ∧
      (2 * n < 2 ^ 63 → encode ('0' :: 'x' :: word.symbols) w = .ok word)) ∧
    (∀ s word, s.length = 6 * n → encode ('0' :: 't' :: s) w = .ok word → word.glyphs = s) ∧
    (∀ s word, s.length = 2 * n → encode ('0' :: 'x' :: s) w = .ok word →
      word.symbols = s.map Text.upperChar) := by
  refine ⟨?_, fun s word hlen h => ?_, fun s word hlen h => ?_⟩
  · rintro word hne rfl
    exact ⟨fun hn => encodeTrits_glyphs (Width.toInt_trits_of_lt hw hn) hne,
      fun hn => encodeTriads_symbols (Width.toInt_triads_of_lt hw hn) hne⟩
  · exact glyphs_of_encodeTrits hw hlen h
  · exact symbols_of_encodeTriads hw hlen h

/-- More trytes than any data type has. -/
def fiveTrytes : Word := Word.ofTrits (Trit.expand 30 31415926535897)

/-- The long s is among the letters that have a capital. -/
theorem fiveTrytes_exact_width :
    (⟨5⟩ : Width).trytes.toInt = (5 : Nat) ∧ fiveTrytes.length = 5 ∧
    encode ('0' :: 't' :: fiveTrytes.glyphs) ⟨5⟩ = .ok fiveTrytes ∧
    encode ('0' :: 'x' :: fiveTrytes.symbols) ⟨5⟩ = .ok fiveTrytes ∧
    (∃ word : Word, encode ['0', 't', '1', 'λ', '0', '0', '1', '1'] .tryte = .ok word ∧
      word.glyphs = ['1', 'λ', '0', '0', '1', '1']) ∧
    ∃ word : Word, encode ['0', 'x', 'a', 'ſ'] .tryte = .ok word ∧ word.symbols = ['A', 'S'] := by
  have hlen : fiveTrytes.length = 5 := Word.length_ofTrits (Trit.length_expand 30 _)
  have hfive := (encode_exact_width (w := ⟨5⟩) (n := 5) rfl).1 fiveTrytes
    (List.ne_nil_of_length_pos (by omega)) hlen
  obtain ⟨-, htrits, htriads⟩ := encode_exact_width (w := .tryte) (n := 1) rfl
  obtain ⟨word, hword⟩ : ∃ word : Word,
      encode ['0', 't', '1', 'λ', '0', '0', '1', '1'] .tryte = .ok word := ⟨_, rfl⟩
  obtain ⟨word', hword'⟩ : ∃ word : Word, encode ['0', 'x', 'a', 'ſ'] .tryte = .ok word := ⟨_, rfl⟩
  exact ⟨rfl, hlen, hfive.1 (by decide), hfive.2 (by decide),
    ⟨word, hword, htrits _ word rfl hword⟩, ⟨word', hword', htriads _ word' rfl hword'⟩⟩

end Numeral

end BalancedTernary
