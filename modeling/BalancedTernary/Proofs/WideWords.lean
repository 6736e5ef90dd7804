import BalancedTernary.Proofs.Numeral

/-!
# Words of any width

From seven trytes on, 64 bits do not hold the bound of a width, and what is computed in its place is
no longer that of the words. It can be too small, and even negative, but it is never too big: an
integer that passes it has a word of the width, and the word has its value. The digits of that word
are those that a division by three with a carry gives in 64 bits.
-/

namespace BalancedTernary

/-! ## Digits by division -/

namespace Trit

/-- The last `n` digits of the number `magnitude + carry`, the least significant first, all of them
negated if `negative`. Where a remainder and a carry make two or three, the digit is three less and
the next place gets a carry. -/
def divideDigits (negative : Bool) : Nat → Int64 → Int64 → List Int64
  | 0, _, _ => []
  | n + 1, magnitude, carry =>
    let d := magnitude % 3 + carry
    if d > 1 then
      (if negative then -(d - 3) else d - 3) :: divideDigits negative n (magnitude / 3) 1
    else (if negative then -d else d) :: divideDigits negative n (magnitude / 3) 0

/-- The last `n` digits of `v`, the least significant first. The division is that of its absolute
value. -/
def digits (n : Nat) (v : Int64) : List Int64 :=
  divideDigits (v < 0) n (if v < 0 then -v else v) 0

theorem toInt_residue_of_bounds {q d : Int} (hlo : -1 ≤ d) (hhi : d ≤ 1) :
    (residue (3 * q + d)).toInt = d := by
  obtain ⟨p, hp⟩ := toInt_residue (3 * q + d)
  have hbounds := (residue (3 * q + d)).toInt_bounds
  omega

/-- One place of `expand`, when the digit and what is left of the number are known. -/
theorem reverse_expand_succ {n : Nat} {v q d : Int} (hv : v = 3 * q + d) (hlo : -1 ≤ d)
    (hhi : d ≤ 1) :
    ((expand (n + 1) v).map toInt).reverse = d :: ((expand n q).map toInt).reverse := by
  have hd : (residue v).toInt = d := by
    rw [hv]
    exact toInt_residue_of_bounds hlo hhi
  have hq : (v - (residue v).toInt) / 3 = q := by omega
  rw [expand, hq, List.map_append, List.reverse_append, List.map_singleton, hd]
  rfl

/-- One place of the division: the digit and the carry make up for what the quotient leaves. -/
theorem divideDigits_succ {magnitude carry : Int64} (hmagnitude : 0 ≤ magnitude.toInt)
    (hcarry : carry = 0 ∨ carry = 1) :
    ∃ d next : Int64, (next = 0 ∨ next = 1) ∧ (-1 ≤ d.toInt ∧ d.toInt ≤ 1) ∧
      0 ≤ (magnitude / 3).toInt ∧
      magnitude.toInt + carry.toInt = 3 * ((magnitude / 3).toInt + next.toInt) + d.toInt ∧
      ∀ negative n, divideDigits negative (n + 1) magnitude carry =
        (if negative then -d else d) :: divideDigits negative n (magnitude / 3) next := by
  have hthree : (3 : Int64).toInt = 3 := rfl
  have hone : (1 : Int64).toInt = 1 := rfl
  have hquotient : (magnitude / 3).toInt = magnitude.toInt / 3 := by
    rw [Int64.toInt_div_of_ne_right _ _ (by decide), hthree, Int.tdiv_eq_ediv_of_nonneg hmagnitude]
  have hremainder : (magnitude % 3).toInt = magnitude.toInt % 3 := by
    rw [Int64.toInt_mod, hthree, Int.tmod_eq_emod_of_nonneg hmagnitude]
  have hcarryInt : 0 ≤ carry.toInt ∧ carry.toInt ≤ 1 := by
    rcases hcarry with rfl | rfl <;> decide
  have hsum : (magnitude % 3 + carry).toInt = magnitude.toInt % 3 + carry.toInt := by
    rw [Int64.toInt_add, hremainder, Int.bmod_eq_of_le] <;> omega
  by_cases hbig : magnitude % 3 + carry > 1
  · have hd : (magnitude % 3 + carry - 3).toInt = magnitude.toInt % 3 + carry.toInt - 3 := by
      rw [Int64.toInt_sub, hsum, hthree, Int.bmod_eq_of_le] <;> omega
    refine ⟨magnitude % 3 + carry - 3, 1, .inr rfl, ?_, by omega, ?_, fun negative n => ?_⟩
    · rw [gt_iff_lt, Int64.lt_iff_toInt_lt, hsum, hone] at hbig
      omega
    · rw [hd, hquotient, hone]
      omega
    · rw [divideDigits, if_pos hbig]
  · refine ⟨magnitude % 3 + carry, 0, .inl rfl, ?_, by omega, ?_, fun negative n => ?_⟩
    · rw [gt_iff_lt, Int64.lt_iff_toInt_lt, hsum, hone] at hbig
      omega
    · rw [hsum, hquotient]
      show _ = 3 * (magnitude.toInt / 3 + 0) + _
      omega
    · rw [divideDigits, if_neg hbig]

/-- The digits by division are the trits of the number, and negation changes only their signs. -/
theorem map_toInt_divideDigits (negative : Bool) (n : Nat) {magnitude carry : Int64}
    (hmagnitude : 0 ≤ magnitude.toInt) (hcarry : carry = 0 ∨ carry = 1) :
    (divideDigits negative n magnitude carry).map Int64.toInt =
      ((expand n (if negative then -(magnitude.toInt + carry.toInt)
        else magnitude.toInt + carry.toInt)).map toInt).reverse := by
  induction n generalizing magnitude carry with
  | zero => rfl
  | succ n ih =>
    obtain ⟨d, next, hnext, ⟨hlo, hhi⟩, hquotient, hsum, hstep⟩ :=
      divideDigits_succ hmagnitude hcarry
    rw [hstep, List.map_cons, ih hquotient hnext]
    cases negative with
    | true =>
      have hneg : (-d).toInt = -d.toInt := by
        rw [Int64.toInt_neg, Int.bmod_eq_of_le] <;> omega
      simp only [if_true, hneg]
      rw [reverse_expand_succ (q := -((magnitude / 3).toInt + next.toInt)) (d := -d.toInt)] <;>
        omega
    | false =>
      simp only [Bool.false_eq_true, if_false]
      rw [reverse_expand_succ hsum hlo hhi]

/-- Every integer but the smallest, whose negation 64 bits do not hold, is divided into its own
trits. -/
theorem map_toInt_digits (n : Nat) {v : Int64} (hv : (-v).toInt = -v.toInt) :
    (digits n v).map Int64.toInt = ((expand n v.toInt).map toInt).reverse := by
  have hzero : (0 : Int64).toInt = 0 := rfl
  unfold digits
  by_cases hnegative : v < 0
  · have hlt : v.toInt < 0 := by rwa [Int64.lt_iff_toInt_lt] at hnegative
    rw [if_pos hnegative, map_toInt_divideDigits _ _ (by omega) (.inl rfl)]
    simp [hnegative, hv, hzero]
  · have hge : 0 ≤ v.toInt := by
      rw [Int64.lt_iff_toInt_lt] at hnegative
      omega
    rw [if_neg hnegative, map_toInt_divideDigits _ _ hge (.inl rfl)]
    simp [hnegative, hzero]

end Trit

/-! ## Bounds that wrapped around -/

/-- The bound is half of something that 64 bits hold, whatever the power in it has become. -/
theorem Width.max_bounds (w : Width) : -2 ^ 62 ≤ w.max.toInt ∧ w.max.toInt ≤ 2 ^ 62 := by
  have hlo := (powThree w.trits - 1).le_toInt
  have hhi := (powThree w.trits - 1).toInt_lt
  have hquotient := Int.mul_tdiv_add_tmod (powThree w.trits - 1).toInt 2
  have hremainderLo := Int.lt_tmod_of_pos (powThree w.trits - 1).toInt (b := 2) (by decide)
  have hremainderHi := Int.tmod_lt_of_pos (powThree w.trits - 1).toInt (b := 2) (by decide)
  have htwo : (2 : Int64).toInt = 2 := rfl
  unfold max
  rw [Int64.toInt_div_of_ne_right _ _ (by decide), htwo]
  omega

theorem Width.toInt_neg_max (w : Width) : (-w.max).toInt = -w.max.toInt := by
  have hbounds := w.max_bounds
  rw [Int64.toInt_neg, Int.bmod_eq_of_le] <;> omega

namespace Word

variable {w : Width} {n : Nat} {v : Int64} {word : Word}

/-- The integers that pass the bound, whatever it is. A negative bound lets none pass. -/
theorem exists_ofInt_iff (v : Int64) (w : Width) :
    (∃ word, ofInt v w = .ok word) ↔ |v.toInt| ≤ w.max.toInt := by
  have hbound : (v > w.max ∨ v < -w.max) ↔ ¬ |v.toInt| ≤ w.max.toInt := by
    rw [gt_iff_lt, Int64.lt_iff_toInt_lt, Int64.lt_iff_toInt_lt, w.toInt_neg_max, abs_le]
    omega
  unfold ofInt
  split
  · simpa using hbound.1 ‹_›
  · simpa using not_not.1 (mt hbound.2 ‹_›)

/-- An integer that passes the bound is small enough for the word. Up to six trytes the bound is
exact, and beyond them there is room for all that 64 bits hold. -/
theorem bounds_of_ofInt (hw : w.trytes.toInt = n) (h : ofInt v w = .ok word) :
    -(3 ^ (6 * n) : Int) < 2 * v.toInt ∧ 2 * v.toInt < 3 ^ (6 * n) := by
  rcases Nat.lt_or_ge 6 n with hn | hn
  · have hpow : (3 ^ 42 : Int) ≤ 3 ^ (6 * n) := pow_le_pow_right₀ (by decide) (by omega)
    have hlo := v.le_toInt
    have hhi := v.toInt_lt
    norm_num at hpow
    omega
  · exact (of_ofInt_eq_ok hw hn h).1

theorem eq_of_ofInt (hw : w.trytes.toInt = n) (hn : 6 * n < 2 ^ 63) (h : ofInt v w = .ok word) :
    word = ofTrits (Trit.expand (6 * n) v.toInt) := by
  have htrits : w.trits.toInt.toNat = 6 * n := by
    rw [Width.toInt_trits_of_lt hw hn]
    omega
  unfold ofInt at h
  split at h
  · cases h
  · rw [← Except.ok.inj h, htrits]

theorem toInt_neg_of_ofInt (h : ofInt v w = .ok word) : (-v).toInt = -v.toInt := by
  have hv := (exists_ofInt_iff v w).1 ⟨word, h⟩
  have hmax := w.max_bounds
  rw [abs_le] at hv
  rw [Int64.toInt_neg, Int.bmod_eq_of_le] <;> omega

/-- At every width for which 64 bits hold the number of trits, the bound can be negated, and it lets
pass the integers up to it. An integer that passes can be negated, and the digits that are computed
for it are trits; they make up a word of the width, which has the integer as its value. -/
theorem ofInt_sound_at_every_width (w : Width) (n : Nat) (hw : w.trytes.toInt = n)
    (hn : n ≤ 2 ^ 32) (v : Int64) :
    w.trits.toInt = 6 * n ∧ (-w.max).toInt = -w.max.toInt ∧
    ((∃ word, ofInt v w = .ok word) ↔ |v.toInt| ≤ w.max.toInt) ∧
    ∀ word, ofInt v w = .ok word →
      (-v).toInt = -v.toInt ∧
      (∀ d ∈ Trit.digits (6 * n) v, d.toInt = -1 ∨ d.toInt = 0 ∨ d.toInt = 1) ∧
      word.trits.map Trit.toInt = ((Trit.digits (6 * n) v).map Int64.toInt).reverse ∧
      word.length = n ∧ word.value = v.toInt ∧ word.toInt64 = v := by
  have hsmall : 6 * n < 2 ^ 63 := by omega
  refine ⟨Width.toInt_trits_of_lt hw hsmall, w.toInt_neg_max, exists_ofInt_iff v w,
    fun word h => ?_⟩
  have hneg := toInt_neg_of_ofInt h
  have hdigits := Trit.map_toInt_digits (6 * n) hneg
  have hword := eq_of_ofInt hw hsmall h
  have hlen := Trit.length_expand (6 * n) v.toInt
  have htrits : word.trits = Trit.expand (6 * n) v.toInt := by
    rw [hword, trits_ofTrits hlen]
  have hvalue : word.value = v.toInt := by
    obtain ⟨hlo, hhi⟩ := bounds_of_ofInt hw h
    rw [value, htrits, Trit.value_expand _ _ hlo hhi]
  refine ⟨hneg, fun d hd => ?_, ?_, ?_, hvalue, ?_⟩
  · have hmem := List.mem_map_of_mem (f := Int64.toInt) hd
    rw [hdigits, List.mem_reverse] at hmem
    obtain ⟨t, -, ht⟩ := List.mem_map.1 hmem
    rw [← ht]
    exact t.toInt_cases
  · rw [hdigits, List.reverse_reverse, htrits]
  · rw [hword, length_ofTrits hlen]
  · rw [toInt64_eq_ofInt_value, hvalue, Int64.ofInt_toInt]

/-- At eleven trytes the bound has wrapped around to a smaller number, and its negation still has a
word. At seven it has become negative, and not even zero passes it. -/
theorem ofInt_beyond_six_trytes :
    ((⟨11⟩ : Width).trytes.toInt = (11 : Nat) ∧
      ∃ word, ofInt (-2405399355285197444) ⟨11⟩ = .ok word ∧ word.length = 11 ∧
        word.toInt64 = -2405399355285197444) ∧
    (⟨7⟩ : Width).trytes.toInt = (7 : Nat) ∧ ¬ ∃ word, ofInt 0 ⟨7⟩ = .ok word := by
  obtain ⟨-, -, hpasses, hword⟩ :=
    ofInt_sound_at_every_width ⟨11⟩ 11 rfl (by decide) (-2405399355285197444)
  obtain ⟨-, -, hseven, -⟩ := ofInt_sound_at_every_width ⟨7⟩ 7 rfl (by decide) 0
  obtain ⟨word, h⟩ := hpasses.2 (by decide +kernel)
  obtain ⟨-, -, -, hlen, -, hvalue⟩ := hword word h
  exact ⟨⟨rfl, word, h, hlen, hvalue⟩, rfl, mt hseven.1 (by decide +kernel)⟩

end Word

end BalancedTernary
