import BalancedTernary.Trit
import Mathlib.Data.List.Induction
import Mathlib.Tactic.Ring

/-!
# Balanced ternary notation

Every integer of absolute value below half of `3 ^ n` has exactly one writing in `n` trits: `value`
reads what `expand` writes, and `expand` writes what `value` reads.
-/

namespace BalancedTernary.Trit

theorem toInt_bounds (t : Trit) : -1 ≤ t.toInt ∧ t.toInt ≤ 1 := by
  cases t <;> decide

theorem toInt_cases (t : Trit) : t.toInt = -1 ∨ t.toInt = 0 ∨ t.toInt = 1 := by
  cases t <;> decide

theorem toInt_residue (v : Int) : ∃ q, v = 3 * q + (residue v).toInt := by
  unfold residue
  split
  · exact ⟨v / 3, by change v = 3 * (v / 3) + 0; omega⟩
  · split
    · exact ⟨v / 3, by change v = 3 * (v / 3) + 1; omega⟩
    · exact ⟨v / 3 + 1, by change v = 3 * (v / 3 + 1) + -1; omega⟩

theorem residue_eq (q : Int) (t : Trit) : residue (3 * q + t.toInt) = t := by
  unfold residue
  cases t with
  | neg =>
    change (if (3 * q + -1) % 3 = 0 then zero else if (3 * q + -1) % 3 = 1 then pos else neg) = neg
    rw [if_neg (by omega), if_neg (by omega)]
  | zero =>
    change (if (3 * q + 0) % 3 = 0 then zero else if (3 * q + 0) % 3 = 1 then pos else neg) = zero
    rw [if_pos (by omega)]
  | pos =>
    change (if (3 * q + 1) % 3 = 0 then zero else if (3 * q + 1) % 3 = 1 then pos else neg) = pos
    rw [if_neg (by omega), if_pos (by omega)]

/-! ## Reading and writing -/

@[simp] theorem value_nil : value [] = 0 := rfl

theorem value_concat (ts : List Trit) (t : Trit) : value (ts ++ [t]) = 3 * value ts + t.toInt := by
  unfold value
  rw [List.foldl_append]
  rfl

/-- Leading trits count by the place at which they stand. -/
theorem value_append (ts us : List Trit) :
    value (ts ++ us) = 3 ^ us.length * value ts + value us := by
  induction us using List.reverseRecOn with
  | nil => simp only [List.append_nil, List.length_nil, pow_zero, one_mul, value_nil, add_zero]
  | append_singleton us t ih =>
    rw [← List.append_assoc, value_concat, value_concat, ih, List.length_append,
      List.length_singleton, pow_succ]
    ring

@[simp] theorem length_expand (n : Nat) (v : Int) : (expand n v).length = n := by
  induction n generalizing v with
  | zero => rfl
  | succ n ih => rw [expand, List.length_append, ih, List.length_singleton]

/-- Twice the value, so that the bound is the same on both sides. -/
theorem two_mul_value_bounds (ts : List Trit) :
    -(3 ^ ts.length : Int) < 2 * value ts ∧ 2 * value ts < 3 ^ ts.length := by
  induction ts using List.reverseRecOn with
  | nil => decide
  | append_singleton ts t ih =>
    have ht := t.toInt_bounds
    rw [value_concat, List.length_append, List.length_singleton, pow_succ]
    omega

theorem three_pow_odd (n : Nat) : (3 ^ n : Int) % 2 = 1 := by
  induction n with
  | zero => rfl
  | succ n ih =>
    rw [pow_succ]
    omega

theorem value_expand (n : Nat) (v : Int) (hlo : -(3 ^ n : Int) < 2 * v) (hhi : 2 * v < 3 ^ n) :
    value (expand n v) = v := by
  induction n generalizing v with
  | zero =>
    rw [pow_zero] at hlo hhi
    change 0 = v
    omega
  | succ n ih =>
    -- The trits in front of the last one write the quotient, which is within the smaller bound.
    obtain ⟨q, hq⟩ := toInt_residue v
    have ht := (residue v).toInt_bounds
    have hdiv : (v - (residue v).toInt) / 3 = q := by omega
    have hodd := three_pow_odd n
    rw [pow_succ] at hlo hhi
    rw [expand, value_concat, hdiv, ih q (by omega) (by omega), ← hq]

theorem expand_value (ts : List Trit) : expand ts.length (value ts) = ts := by
  induction ts using List.reverseRecOn with
  | nil => rfl
  | append_singleton ts t ih =>
    have hdiv : (3 * value ts + t.toInt - t.toInt) / 3 = value ts := by omega
    rw [List.length_append, List.length_singleton, expand, value_concat, residue_eq, hdiv, ih]

theorem value_injective {ts us : List Trit} (hlen : ts.length = us.length)
    (h : value ts = value us) : ts = us := by
  rw [← expand_value ts, ← expand_value us, hlen, h]

/-! ## Glyphs -/

theorem ofGlyph?_eq_some_iff {c : Char} {t : Trit} : ofGlyph? c = some t ↔ c = t.glyph := by
  constructor
  · intro h
    unfold ofGlyph? at h
    split at h
    · rename_i hc
      rw [← Option.some.inj h, hc]
      rfl
    · split at h
      · rename_i hc
        rw [← Option.some.inj h, hc]
        rfl
      · split at h
        · rename_i hc
          rw [← Option.some.inj h, hc]
          rfl
        · exact nomatch h
  · rintro rfl
    cases t <;> rfl

theorem glyph_cases (t : Trit) : t.glyph = 'λ' ∨ t.glyph = '0' ∨ t.glyph = '1' := by
  cases t <;> decide

theorem exists_glyph {c : Char} (h : c = 'λ' ∨ c = '0' ∨ c = '1') : ∃ t : Trit, c = t.glyph := by
  rcases h with rfl | rfl | rfl
  · exact ⟨.neg, rfl⟩
  · exact ⟨.zero, rfl⟩
  · exact ⟨.pos, rfl⟩

end BalancedTernary.Trit
