import BalancedTernary.Proofs.DataLabels
import BalancedTernary.Proofs.NumeralGrammar

/-!
# Widening

A numeral that is read at one width is read at every larger one, in each of the three notations, and
the word gets zeros in front. So the width of a data directive has no part in the values that it
holds, as long as they fit.
-/

namespace BalancedTernary

namespace Numeral

variable {s : Text} {w w' : Width} {n n' : Nat} {word : Word}

/-- The digits of the prefixed notations are counted, a decimal is held against its bound, and both
limits grow with the width. -/
theorem Written.mono {v : Int} (h : Written n s v) (hle : n ≤ n') : Written n' s v := by
  cases h with
  | trits hne hlen hdigits => exact .trits hne (hlen.trans (Nat.mul_le_mul_left 6 hle)) hdigits
  | triads hne hlen hdigits => exact .triads hne (hlen.trans (Nat.mul_le_mul_left 2 hle)) hdigits
  | decimal hdecimal hv =>
    have hpow : (3 ^ (6 * n) : Int) ≤ 3 ^ (6 * n') :=
      pow_le_pow_right₀ (by decide) (Nat.mul_le_mul_left 6 hle)
    exact .decimal hdecimal (by omega)

/-- The zeros in front do not change the value, and a word is known by its value. -/
theorem encode_of_le (hw : w.trytes.toInt = n) (hw' : w'.trytes.toInt = n') (hle : n ≤ n')
    (hn' : n' ≤ 6) (h : encode s w = .ok word) :
    encode s w' = .ok (List.replicate (n' - n) .zero ++ word) := by
  obtain ⟨hlen, hwritten⟩ := (encode_eq_ok_iff hw (hle.trans hn')).1 h
  rw [encode_eq_ok_iff hw' hn', Word.value_replicate_zero_append]
  refine ⟨?_, hwritten.mono hle⟩
  rw [List.length_append, List.length_replicate]
  omega

end Numeral

namespace Assembly.Data

variable {body body' : Text} {w w' : Width} {n n' : Nat}

/-- Labels are widened like numerals, since only their last tryte is not zero. -/
theorem encodeValue_of_le {value : Text} {part : List Relocatable} (hw : w.trytes.toInt = n)
    (hw' : w'.trytes.toInt = n') (hpos : 0 < n) (hle : n ≤ n') (hn' : n' ≤ 6)
    (h : encodeValue body w value = .ok part) :
    encodeValue body' w' value = .ok (List.replicate (n' - n) (.tryte .zero) ++ part) := by
  unfold encodeValue at h ⊢
  split at h
  · cases h
  · rename_i hregister
    rw [if_neg hregister]
    split at h
    · rename_i hname
      have hzeros : n' - 1 = (n' - n) + (n - 1) := by omega
      rw [if_pos hname, ← Except.ok.inj h, hw, hw', Int.toNat_natCast, Int.toNat_natCast, hzeros,
        List.replicate_add, List.append_assoc]
    · rename_i hname
      rw [if_neg hname]
      split at h
      · cases h
      · rename_i word hword
        rw [← Except.ok.inj h, Numeral.encode_of_le hw hw' hle hn' hword]
        dsimp only
        rw [List.map_append, List.map_replicate]

/-- A directive with a wider type has the same parts, each with zeros in front. -/
theorem exists_parts_of_le {type type' : Text} {values : List Text} {slots : List Relocatable}
    (hw : w.trytes.toInt = n) (hw' : w'.trytes.toInt = n') (hle : n ≤ n')
    (hfields : Text.fields isSeparator body = type :: values)
    (hfields' : Text.fields isSeparator body' = type' :: values)
    (htype : Width.ofName? type = some w) (htype' : Width.ofName? type' = some w')
    (h : assemble body = .ok slots) :
    ∃ parts : List (List Relocatable), parts.length = values.length ∧
      (∀ part ∈ parts, part.length = n) ∧ slots = parts.flatten ∧
      assemble body' = .ok (parts.flatMap (List.replicate (n' - n) (.tryte .zero) ++ ·)) := by
  obtain ⟨m, hm, hpos, -⟩ := exists_trytes_of_ofName? htype
  obtain ⟨m', hm', -, hn'⟩ := exists_trytes_of_ofName? htype'
  obtain rfl : m = n := by omega
  obtain rfl : m' = n' := by omega
  obtain ⟨t, us, u, parts, hfound, hu, hne, hparts, rfl⟩ := assemble_eq_ok_iff.1 h
  obtain ⟨rfl, rfl⟩ := List.cons.inj (hfields.symm.trans hfound)
  obtain rfl : w = u := Option.some.inj (htype.symm.trans hu)
  refine ⟨parts, hparts.length_eq.symm, ?_, rfl, ?_⟩
  · intro part hpart
    obtain ⟨value, -, hvalue⟩ := Outcome.exists_of_mem_right hparts hpart
    exact length_encodeValue hw hpos (hle.trans hn') hvalue
  · refine assemble_eq_ok_iff.2 ⟨type', values, w', _, hfields', htype', hne, ?_,
      List.flatMap_def.symm⟩
    rw [List.forall₂_map_right_iff]
    exact hparts.imp fun value part hvalue => encodeValue_of_le hw hw' hpos hle hn' hvalue

end Assembly.Data

namespace Assembly

/-- Widening is zero extension. What is read at a width is read at a larger one as the same trytes
with zeros in front, which have the same value; and so it is with each value of a directive. -/
theorem widen_by_zeros {w w' : Width} {n n' : Nat} (hw : w.trytes.toInt = n)
    (hw' : w'.trytes.toInt = n') (hlt : n < n') (hn' : n' ≤ 6) :
    (∀ (s : Text) (word : Word), Numeral.encode s w = .ok word →
      Numeral.encode s w' = .ok (List.replicate (n' - n) .zero ++ word) ∧
        Word.toInt64 (List.replicate (n' - n) .zero ++ word) = word.toInt64) ∧
    ∀ (body body' type type' : Text) (values : List Text) (slots : List Relocatable),
      Text.fields isSeparator body = type :: values →
      Text.fields isSeparator body' = type' :: values →
      Width.ofName? type = some w → Width.ofName? type' = some w' →
      Data.assemble body = .ok slots →
      ∃ parts : List (List Relocatable), parts.length = values.length ∧
        (∀ part ∈ parts, part.length = n) ∧ slots = parts.flatten ∧
        Data.assemble body' = .ok (parts.flatMap (List.replicate (n' - n) (.tryte .zero) ++ ·)) := by
  constructor
  · intro s word h
    exact ⟨Numeral.encode_of_le hw hw' hlt.le hn' h, Word.toInt64_replicate_zero_append _ word⟩
  · intro body body' type type' values slots hfields hfields' htype htype' h
    exact Data.exists_parts_of_le hw hw' hlt.le hfields hfields' htype htype' h

/-- The smallest value of a tryte has no zero among its trits, so a carry would show. -/
theorem widen_smallest_tryte :
    Width.tryte.trytes.toInt = (1 : Nat) ∧ Width.quad.trytes.toInt = (4 : Nat) ∧
    Numeral.encode "-364".toList .quad =
      .ok [.zero, .zero, .zero, ⟨⟨.neg, .neg, .neg⟩, ⟨.neg, .neg, .neg⟩⟩] ∧
    ∃ parts : List (List Relocatable), parts.length = 2 ∧ (∀ part ∈ parts, part.length = 1) ∧
      [.tryte ⟨⟨.neg, .neg, .neg⟩, ⟨.neg, .neg, .neg⟩⟩, .address ['x']] = parts.flatten ∧
      Data.assemble "dq -364, x".toList =
        .ok (parts.flatMap (List.replicate 3 (.tryte .zero) ++ ·)) := by
  obtain ⟨hnumeral, hdata⟩ :=
    @widen_by_zeros .tryte .quad 1 4 rfl rfl (by decide) (by decide)
  have htryte : Numeral.encode "-364".toList .tryte =
      .ok [⟨⟨.neg, .neg, .neg⟩, ⟨.neg, .neg, .neg⟩⟩] := by decide +kernel
  have hdirective : Data.assemble "tryte -364, x".toList =
      .ok [.tryte ⟨⟨.neg, .neg, .neg⟩, ⟨.neg, .neg, .neg⟩⟩, .address ['x']] := by decide +kernel
  exact ⟨rfl, rfl, (hnumeral _ _ htryte).1,
    hdata _ _ "tryte".toList "dq".toList ["-364".toList, ['x']] _ (by decide) (by decide)
      (by decide) (by decide) hdirective⟩

end Assembly

end BalancedTernary
