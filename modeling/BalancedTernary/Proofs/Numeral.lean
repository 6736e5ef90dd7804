import BalancedTernary.Numeral.Basic
import BalancedTernary.Proofs.Trit
import Mathlib.Tactic.NormNum

/-!
# Words as integers

A word of up to six trytes has a value that 64 bits hold. For such widths `Word.ofInt` and
`Word.toInt64` are inverse to each other, and `Word.ofInt` fails on exactly the integers that no
word of the width stands for.
-/

namespace BalancedTernary

namespace Word

/-! ## Words and their trits -/

@[simp] theorem trits_cons (t : Tryte) (w : Word) : trits (t :: w) = t.trits ++ trits w := rfl

theorem trits_append (w u : Word) : trits (w ++ u) = trits w ++ trits u := List.flatMap_append

@[simp] theorem length_tryteTrits (t : Tryte) : t.trits.length = 6 := rfl

@[simp] theorem length_trits (w : Word) : w.trits.length = 6 * w.length := by
  induction w with
  | nil => rfl
  | cons t w ih =>
    rw [trits_cons, List.length_append, length_tryteTrits, ih, List.length_cons]
    omega

@[simp] theorem ofTrits_trits (w : Word) : ofTrits w.trits = w := by
  induction w with
  | nil => rfl
  | cons t w ih =>
    change t :: ofTrits (trits w) = t :: w
    rw [ih]

theorem trits_ofTrits {n : Nat} {ts : List Trit} (h : ts.length = 6 * n) :
    (ofTrits ts).trits = ts := by
  induction n generalizing ts with
  | zero =>
    rw [List.length_eq_zero_iff.1 h]
    rfl
  | succ n ih =>
    match ts, h with
    | a :: b :: c :: d :: e :: f :: rest, h =>
      have hrest : rest.length = 6 * n := by
        simp only [List.length_cons] at h
        omega
      change a :: b :: c :: d :: e :: f :: (ofTrits rest).trits = _
      rw [ih hrest]

theorem length_ofTrits {n : Nat} {ts : List Trit} (h : ts.length = 6 * n) :
    (ofTrits ts).length = n := by
  have ht := length_trits (ofTrits ts)
  rw [trits_ofTrits h, h] at ht
  omega

theorem trits_injective {w u : Word} (h : w.trits = u.trits) : w = u := by
  rw [← ofTrits_trits w, h, ofTrits_trits]

/-! ## Values -/

theorem value_concat (w : Word) (t : Tryte) : value (w ++ [t]) = 729 * value w + t.toInt := by
  unfold value
  rw [trits_append, Trit.value_append]
  change 3 ^ t.trits.length * _ + Trit.value (t.trits ++ []) = _
  rw [List.append_nil, length_tryteTrits]
  rfl

theorem value_bounds {n : Nat} {w : Word} (h : w.length ≤ n) :
    -(3 ^ (6 * n) : Int) < 2 * value w ∧ 2 * value w < 3 ^ (6 * n) := by
  have hv := Trit.two_mul_value_bounds w.trits
  have hpow : (3 ^ (6 * w.length) : Int) ≤ 3 ^ (6 * n) :=
    pow_le_pow_right₀ (by decide) (Nat.mul_le_mul_left 6 h)
  rw [length_trits] at hv
  unfold value
  omega

/-- The wrapped sum is the sum, wrapped. -/
theorem toInt64_eq_ofInt_value (w : Word) : w.toInt64 = Int64.ofInt w.value := by
  -- The sum is folded from the left, so the tryte to take off is the last one.
  induction w using List.reverseRecOn with
  | nil => rfl
  | append_singleton w t ih =>
    have hstep : toInt64 (w ++ [t]) = toInt64 w * 729 + Int64.ofInt t.toInt := by
      unfold toInt64
      rw [List.foldl_append]
      rfl
    rw [hstep, ih, value_concat, Int64.ofInt_add, Int64.ofInt_mul, Int64.mul_comm]
    rfl

theorem toInt_toInt64 {w : Word} (h : w.length ≤ 6) : w.toInt64.toInt = w.value := by
  have hv := value_bounds h
  norm_num at hv
  rw [toInt64_eq_ofInt_value]
  apply Int64.toInt_ofInt_of_le <;> omega

theorem value_injective {w u : Word} (hlen : w.length = u.length) (h : w.value = u.value) :
    w = u := by
  apply trits_injective
  apply Trit.value_injective _ h
  rw [length_trits, length_trits, hlen]

theorem value_singleton (t : Tryte) : value [t] = t.toInt := by
  change Trit.value (t.trits ++ []) = Trit.value t.trits
  rw [List.append_nil]

end Word

namespace Tryte

theorem toInt_bounds (t : Tryte) : -364 ≤ t.toInt ∧ t.toInt ≤ 364 := by
  have h := Word.value_bounds (n := 1) (w := [t]) le_rfl
  rw [Word.value_singleton] at h
  norm_num at h
  omega

theorem toInt_injective {s t : Tryte} (h : s.toInt = t.toInt) : s = t := by
  rw [← Word.value_singleton, ← Word.value_singleton] at h
  exact List.singleton_inj.1 (Word.value_injective rfl h)

end Tryte

/-! ## Widths -/

namespace Width

theorem powThree_eq (n : Int64) : powThree n = Int64.ofInt (3 ^ n.toInt.toNat) := by
  unfold powThree
  induction n.toInt.toNat with
  | zero => rfl
  | succ k ih =>
    rw [Nat.repeat, ih, pow_succ, Int64.ofInt_mul]
    rfl

variable {w : Width} {n : Nat}

/-- The number of trits is exact as long as 64 bits hold it. -/
theorem toInt_trits_of_lt (hw : w.trytes.toInt = n) (hn : 6 * n < 2 ^ 63) :
    w.trits.toInt = 6 * n := by
  unfold trits
  rw [Int64.toInt_mul, hw]
  change Int.bmod (n * 6) _ = _
  rw [Int.bmod_eq_of_le] <;> omega

theorem toInt_trits (hw : w.trytes.toInt = n) (hn : n ≤ 6) : w.trits.toInt = 6 * n :=
  toInt_trits_of_lt hw (by omega)

/-- The bound is computed without wrapping around. -/
theorem two_mul_max (hw : w.trytes.toInt = n) (hn : n ≤ 6) :
    2 * w.max.toInt + 1 = 3 ^ (6 * n) := by
  have htrits : w.trits.toInt.toNat = 6 * n := by
    rw [toInt_trits hw hn]
    omega
  have hle : (3 ^ (6 * n) : Int) ≤ 3 ^ 36 := pow_le_pow_right₀ (by decide) (by omega)
  have hpos : (1 : Int) ≤ 3 ^ (6 * n) := one_le_pow₀ (by decide)
  have hodd := Trit.three_pow_odd (6 * n)
  norm_num at hle
  -- The largest power, of six trytes, is still below the first that 64 bits do not hold.
  have hpow : (powThree w.trits).toInt = 3 ^ (6 * n) := by
    rw [powThree_eq, htrits]
    apply Int64.toInt_ofInt_of_le <;> omega
  have hsub : (powThree w.trits - 1).toInt = 3 ^ (6 * n) - 1 := by
    rw [Int64.toInt_sub, hpow]
    change Int.bmod (3 ^ (6 * n) - 1) _ = _
    rw [Int.bmod_eq_of_le] <;> omega
  unfold max
  rw [Int64.toInt_div_of_ne_right _ _ (by decide), hsub]
  change 2 * Int.tdiv (3 ^ (6 * n) - 1) 2 + 1 = _
  rw [Int.tdiv_eq_ediv_of_nonneg (by omega)]
  omega

end Width

namespace Word

variable {w : Width} {n : Nat} {v : Int64}

theorem ofInt_in_range_iff (hw : w.trytes.toInt = n) (hn : n ≤ 6) :
    ¬(v > w.max ∨ v < -w.max) ↔ -(3 ^ (6 * n) : Int) < 2 * v.toInt ∧ 2 * v.toInt < 3 ^ (6 * n) := by
  have hmax := Width.two_mul_max hw hn
  have hpos : (1 : Int) ≤ 3 ^ (6 * n) := one_le_pow₀ (by decide)
  have hmaxLt := w.max.toInt_lt
  -- Only the smallest integer is its own negation, and the bound is not negative.
  have hneg : (-w.max).toInt = -w.max.toInt := by
    rw [Int64.toInt_neg, Int.bmod_eq_of_le] <;> omega
  rw [gt_iff_lt, Int64.lt_iff_toInt_lt, Int64.lt_iff_toInt_lt, hneg]
  omega

theorem ofInt_eq_ok (hw : w.trytes.toInt = n) (hn : n ≤ 6)
    (hlo : -(3 ^ (6 * n) : Int) < 2 * v.toInt) (hhi : 2 * v.toInt < 3 ^ (6 * n)) :
    ofInt v w = .ok (ofTrits (Trit.expand (6 * n) v.toInt)) := by
  have htrits : w.trits.toInt.toNat = 6 * n := by
    rw [Width.toInt_trits hw hn]
    omega
  unfold ofInt
  rw [if_neg ((ofInt_in_range_iff hw hn).2 ⟨hlo, hhi⟩), htrits]

theorem ofInt_eq_error (hw : w.trytes.toInt = n) (hn : n ≤ 6)
    (h : ¬(-(3 ^ (6 * n) : Int) < 2 * v.toInt ∧ 2 * v.toInt < 3 ^ (6 * n))) :
    ofInt v w = .error (.integerTooBig v w) := by
  unfold ofInt
  rw [if_pos (not_not.1 (mt (ofInt_in_range_iff hw hn).1 h))]

/-- What a success of `ofInt` gives: the range, and the trits. -/
theorem of_ofInt_eq_ok {word : Word} (hw : w.trytes.toInt = n) (hn : n ≤ 6)
    (h : ofInt v w = .ok word) :
    (-(3 ^ (6 * n) : Int) < 2 * v.toInt ∧ 2 * v.toInt < 3 ^ (6 * n)) ∧
      word = ofTrits (Trit.expand (6 * n) v.toInt) := by
  by_cases hrange : -(3 ^ (6 * n) : Int) < 2 * v.toInt ∧ 2 * v.toInt < 3 ^ (6 * n)
  · rw [ofInt_eq_ok hw hn hrange.1 hrange.2] at h
    exact ⟨hrange, (Except.ok.inj h).symm⟩
  · rw [ofInt_eq_error hw hn hrange] at h
    exact nomatch h

theorem length_of_ofInt {word : Word} (hw : w.trytes.toInt = n) (hn : n ≤ 6)
    (h : ofInt v w = .ok word) : word.length = n := by
  rw [(of_ofInt_eq_ok hw hn h).2]
  exact length_ofTrits (Trit.length_expand _ _)

theorem value_of_ofInt {word : Word} (hw : w.trytes.toInt = n) (hn : n ≤ 6)
    (h : ofInt v w = .ok word) : word.value = v.toInt := by
  obtain ⟨⟨hlo, hhi⟩, rfl⟩ := of_ofInt_eq_ok hw hn h
  unfold value
  rw [trits_ofTrits (Trit.length_expand _ _), Trit.value_expand _ _ hlo hhi]

theorem toInt64_of_ofInt {word : Word} (hw : w.trytes.toInt = n) (hn : n ≤ 6)
    (h : ofInt v w = .ok word) : word.toInt64 = v := by
  rw [toInt64_eq_ofInt_value, value_of_ofInt hw hn h, Int64.ofInt_toInt]

theorem ofInt_of_toInt_eq_value {word : Word} (hw : w.trytes.toInt = n) (hn : n ≤ 6)
    (hlen : word.length = n) (hv : v.toInt = word.value) : ofInt v w = .ok word := by
  have hbounds := value_bounds hlen.le
  rw [ofInt_eq_ok hw hn (by omega) (by omega), hv, value, ← hlen, ← length_trits,
    Trit.expand_value, ofTrits_trits]

theorem ofInt_tryte {t : Tryte} (h : v.toInt = t.toInt) : ofInt v .tryte = .ok [t] :=
  ofInt_of_toInt_eq_value (n := 1) rfl (by decide) rfl (by rw [value_singleton, h])

/-- Up to six trytes, `ofInt` and `toInt64` are inverse bijections between the integers in range and
the words of the width. -/
theorem ofInt_toInt64_inverse (w : Width) (n : Nat) (hw : w.trytes.toInt = n) (hn : n ≤ 6) :
    (∀ v : Int64,
      ((∃ word, ofInt v w = .ok word) ↔ |v.toInt| ≤ (3 ^ (6 * n) - 1) / 2) ∧
      (¬ |v.toInt| ≤ (3 ^ (6 * n) - 1) / 2 →
        ∃ fault, ofInt v w = .error fault ∧ fault.kind = .valueOutOfRange) ∧
      ∀ word, ofInt v w = .ok word →
        word.length = n ∧ (∀ t ∈ word.trits, t.toInt = -1 ∨ t.toInt = 0 ∨ t.toInt = 1) ∧
          word.toInt64 = v) ∧
    ∀ word : Word, word.length = n → ofInt word.toInt64 w = .ok word := by
  have hrange (v : Int64) : |v.toInt| ≤ (3 ^ (6 * n) - 1) / 2 ↔
      -(3 ^ (6 * n) : Int) < 2 * v.toInt ∧ 2 * v.toInt < 3 ^ (6 * n) := by
    -- A power of three is odd, so nothing is lost when the bound is halved.
    have hodd := Trit.three_pow_odd (6 * n)
    rw [abs_le]
    omega
  refine ⟨fun v => ⟨⟨?_, ?_⟩, ?_, ?_⟩, ?_⟩
  · rintro ⟨word, h⟩
    exact (hrange v).2 (of_ofInt_eq_ok hw hn h).1
  · intro h
    obtain ⟨hlo, hhi⟩ := (hrange v).1 h
    exact ⟨_, ofInt_eq_ok hw hn hlo hhi⟩
  · intro h
    exact ⟨_, ofInt_eq_error hw hn (mt (hrange v).2 h), rfl⟩
  · intro word h
    exact ⟨length_of_ofInt hw hn h, fun t _ => t.toInt_cases, toInt64_of_ofInt hw hn h⟩
  · intro word hlen
    exact ofInt_of_toInt_eq_value hw hn hlen (toInt_toInt64 (hlen.le.trans hn))

/-- The bound itself is in range: no carry leaves the top trit. -/
theorem ofInt_quad_largest :
    Width.quad.trytes.toInt = (4 : Nat) ∧ (∃ word, ofInt 141214768240 .quad = .ok word) ∧
      ¬ ∃ word, ofInt 141214768241 .quad = .ok word := by
  have hquad := ofInt_toInt64_inverse .quad 4 rfl (by decide)
  refine ⟨rfl, (hquad.1 _).1.2 (by decide), mt (hquad.1 _).1.1 (by decide)⟩

end Word

end BalancedTernary
