import BalancedTernary.Proofs.Decoding
import BalancedTernary.Proofs.Fragments
import BalancedTernary.Proofs.Numeral

/-!
# Lengths of fragments

A numeral takes as many trytes as its width says, and an instruction as many as its format says. So
every statement that is accepted contributes at least one tryte to the image.
-/

namespace BalancedTernary

/-! ## Numerals -/

theorem Word.length_ofTriads {n : Nat} {ts : List Triad} (h : ts.length = 2 * n) :
    (Word.ofTriads ts).length = n := by
  induction n generalizing ts with
  | zero =>
    rw [List.length_eq_zero_iff.1 h]
    rfl
  | succ n ih =>
    match ts, h with
    | a :: b :: rest, h =>
      simp only [List.length_cons] at h
      simp only [Word.ofTriads, List.length_cons]
      rw [ih (by omega)]

theorem Width.toInt_triads_of_lt {w : Width} {n : Nat} (hw : w.trytes.toInt = n)
    (hn : 2 * n < 2 ^ 63) : w.triads.toInt = 2 * n := by
  unfold triads
  rw [Int64.toInt_mul, hw]
  show Int.bmod (n * 2) _ = _
  rw [Int.bmod_eq_of_le] <;> omega

theorem Width.toInt_triads {w : Width} {n : Nat} (hw : w.trytes.toInt = n) (hn : n ≤ 6) :
    w.triads.toInt = 2 * n :=
  toInt_triads_of_lt hw (by omega)

namespace Numeral

theorem length_readAll {α : Type} {digit? : Char → Option α} {s : Text} {digits : List α}
    (h : readAll digit? s = .ok digits) : digits.length = s.length := by
  induction s generalizing digits with
  | nil => simpa using (Except.ok.inj h).symm
  | cons c s ih =>
    unfold readAll at h
    split at h
    · exact nomatch h
    · obtain ⟨rest, hrest, rfl⟩ := Outcome.map_eq_ok.1 h
      simp [ih hrest]

@[simp] theorem length_extend {α : Type} (zero : α) (count : Nat) (digits : List α) :
    (extend zero count digits).length = max count digits.length := by
  simp only [extend, List.length_append, List.length_replicate]
  omega

section Widths

variable {literal body : Text} {w : Width} {n : Nat} {word : Word}

theorem length_encodeTrits (hw : w.trytes.toInt = n) (hn : n ≤ 6)
    (h : encodeTrits literal body w = .ok word) : word.length = n := by
  have htrits := Width.toInt_trits hw hn
  unfold encodeTrits at h
  split at h
  · exact nomatch h
  · split at h
    · exact nomatch h
    · rename_i hshort
      split at h
      · exact nomatch h
      · rename_i trits hread
        have hlength := length_readAll hread
        rw [← Except.ok.inj h]
        apply Word.length_ofTrits
        -- There are no more trits than places, so the zeros in front make up the difference.
        rw [length_extend]
        omega

theorem length_encodeTriads (hw : w.trytes.toInt = n) (hn : n ≤ 6)
    (h : encodeTriads literal body w = .ok word) : word.length = n := by
  have htriads := Width.toInt_triads hw hn
  unfold encodeTriads at h
  split at h
  · exact nomatch h
  · split at h
    · exact nomatch h
    · rename_i hshort
      split at h
      · exact nomatch h
      · rename_i triads hread
        have hlength := length_readAll hread
        rw [← Except.ok.inj h]
        apply Word.length_ofTriads
        rw [length_extend]
        omega

theorem length_encodeDecimal (hw : w.trytes.toInt = n) (hn : n ≤ 6)
    (h : encodeDecimal literal w = .ok word) : word.length = n := by
  unfold encodeDecimal at h
  split at h
  · exact nomatch h
  · exact nomatch h
  · split at h
    · exact nomatch h
    · rename_i v _ u hu
      rw [← Except.ok.inj h]
      exact Word.length_of_ofInt hw hn hu

/-- A numeral has the width that it is read with, in whatever notation it is written. -/
theorem length_encode (hw : w.trytes.toInt = n) (hn : n ≤ 6)
    (h : encode literal w = .ok word) : word.length = n := by
  unfold encode at h
  split at h
  · exact length_encodeTrits hw hn h
  · exact length_encodeTriads hw hn h
  · exact length_encodeDecimal hw hn h

end Widths

end Numeral

/-! ## Statements -/

namespace Assembly

/-- A data type stands for one to four trytes. -/
theorem exists_trytes_of_ofName? {type : Text} {w : Width} (h : Width.ofName? type = some w) :
    ∃ n : Nat, w.trytes.toInt = n ∧ 0 < n ∧ n ≤ 6 := by
  have htable : ∀ p ∈ Width.names,
      p.2.trytes.toInt = p.2.trytes.toInt.toNat ∧ 0 < p.2.trytes.toInt.toNat ∧
        p.2.trytes.toInt.toNat ≤ 6 := by
    decide
  obtain ⟨p, hp, rfl⟩ := Option.map_eq_some_iff.1 h
  exact ⟨_, htable p (List.mem_of_find?_eq_some hp)⟩

theorem Data.length_encodeValue {body value : Text} {w : Width} {n : Nat}
    {slots : List Relocatable} (hw : w.trytes.toInt = n) (hpos : 0 < n) (hn : n ≤ 6)
    (h : encodeValue body w value = .ok slots) : slots.length = n := by
  unfold encodeValue at h
  split at h
  · exact nomatch h
  · split at h
    · -- A label takes the last tryte, with zeros in front of it.
      rw [← Except.ok.inj h, hw]
      simp
      omega
    · split at h
      · exact nomatch h
      · rename_i word hword
        rw [← Except.ok.inj h, List.length_map]
        exact Numeral.length_encode hw hn hword

/-- A directive is a type and at least one value, and its trytes are those of the values. -/
theorem Data.assemble_eq_ok_iff {body : Text} {slots : List Relocatable} :
    assemble body = .ok slots ↔ ∃ type values w parts,
      Text.fields isSeparator body = type :: values ∧ Width.ofName? type = some w ∧
        values ≠ [] ∧ List.Forall₂ (fun value part => encodeValue body w value = .ok part) values
          parts ∧ parts.flatten = slots := by
  unfold assemble
  constructor
  · intro h
    split at h
    · cases h
    · rename_i type values hfields
      split at h
      · cases h
      · rename_i w hw
        split at h
        · cases h
        · rename_i hvalues
          obtain ⟨parts, hparts, hflatten⟩ := Outcome.map_eq_ok.1 h
          exact ⟨type, values, w, parts, hfields, hw, by simpa using hvalues,
            Outcome.mapM_eq_ok.1 hparts, hflatten⟩
  · rintro ⟨type, values, w, parts, hfields, hw, hvalues, hparts, hflatten⟩
    rw [hfields]
    dsimp only
    rw [hw]
    dsimp only
    rw [if_neg (by simpa using hvalues)]
    exact Outcome.map_eq_ok.2 ⟨parts, Outcome.mapM_eq_ok.2 hparts, hflatten⟩

/-- A directive has a value, and each value has a tryte. -/
theorem Data.length_assemble_pos {body : Text} {slots : List Relocatable}
    (h : assemble body = .ok slots) : 0 < slots.length := by
  obtain ⟨type, values, w, parts, -, hw, hvalues, hparts, rfl⟩ := assemble_eq_ok_iff.1 h
  obtain ⟨n, hn, hpos, hle⟩ := exists_trytes_of_ofName? hw
  match values, hvalues with
  | value :: values, _ =>
    obtain ⟨part, rest, hpart, -, rfl⟩ := List.forall₂_cons_left_iff.1 hparts
    have hlength := length_encodeValue hn hpos hle hpart
    simp only [List.flatten_cons, List.length_append]
    omega

/-- An instruction has its opcode, operand and mode trytes. -/
theorem Instruction.three_le_length_assemble {body : Text} {slots : List Relocatable}
    (h : assemble body = .ok slots) : 3 ≤ slots.length := by
  obtain ⟨i, -, -, hencode⟩ := assemble_eq_ok_iff.1 h
  obtain ⟨format, hformat, rfl⟩ := encode_eq_ok_iff.1 hencode
  have hfits := Family.fits_of_mem (Family.mem_of_format? hformat).1
  simp [Format.length_fill hfits.toReadable]

/-- No statement is accepted that adds nothing to the image. -/
theorem Statement.Yields.length_pos {s : Statement} {f : Fragment} (h : s.Yields f) :
    0 < f.length := by
  obtain ⟨label, body, -, hencode⟩ := h
  obtain ⟨slots, hslots, rfl⟩ := Statement.encode_eq_ok_iff.1 hencode
  show 0 < slots.length
  cases hsegment : s.segment with
  | data =>
    rw [Statement.assemble_of_data hsegment] at hslots
    exact Data.length_assemble_pos hslots
  | code =>
    have hlength :=
      Instruction.three_le_length_assemble ((Statement.assemble_of_code hsegment).1 hslots).2
    omega

end Assembly

end BalancedTernary
