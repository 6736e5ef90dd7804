import BalancedTernary.Text.Integer
import Mathlib.Data.List.Basic
import Mathlib.Tactic.IntervalCases

/-!
# Texts

What the readers of texts make of a text that was put together from known parts: fields between
separators, white space at the ends, marks, lines and whole numbers.
-/

namespace BalancedTernary.Text

/-! ## Fields -/

section Fields

variable {sep : Char → Bool} {c : Char} {s t : Text}

/-- No part of a text that is split holds a separator. -/
theorem separates_of_mem_splitOnP (h : t ∈ s.splitOnP sep) : ∀ c ∈ t, sep c = false := by
  induction s generalizing t with
  | nil =>
    rw [List.eq_of_mem_singleton h]
    exact List.forall_mem_nil _
  | cons d s ih =>
    rw [List.splitOnP_cons_eq_if_modifyHead] at h
    split at h
    · obtain rfl | h := List.mem_cons.1 h
      · exact List.forall_mem_nil _
      · exact ih h
    · rename_i hd
      obtain ⟨first, rest, hparts⟩ := List.exists_cons_of_ne_nil (List.splitOnP_ne_nil sep s)
      rw [hparts] at h ih
      obtain rfl | h := List.mem_cons.1 h
      · -- The first part grows by a character that is no separator.
        exact List.forall_mem_cons.2 ⟨by simpa using hd, ih List.mem_cons_self⟩
      · exact ih (List.mem_cons_of_mem _ h)

theorem separates_of_mem_fields (h : t ∈ fields sep s) : ∀ c ∈ t, sep c = false :=
  separates_of_mem_splitOnP (List.mem_filter.1 h).1

@[simp] theorem fields_nil (sep : Char → Bool) : fields sep [] = [] := rfl

theorem fields_append_cons (s t : Text) (hc : sep c = true) :
    fields sep (s ++ c :: t) = fields sep s ++ fields sep t := by
  unfold fields
  rw [List.splitOnP_append_cons s t hc, List.filter_append]

theorem fields_cons (t : Text) (hc : sep c = true) : fields sep (c :: t) = fields sep t :=
  fields_append_cons [] t hc

theorem fields_concat (s : Text) (hc : sep c = true) : fields sep (s ++ [c]) = fields sep s := by
  rw [fields_append_cons s [] hc, fields_nil, List.append_nil]

theorem fields_append (hs : ∀ c ∈ s, sep c = true) (t : Text) :
    fields sep (s ++ t) = fields sep t := by
  induction s with
  | nil => rfl
  | cons c s ih =>
    rw [List.forall_mem_cons] at hs
    rw [List.cons_append, fields_cons _ hs.1, ih hs.2]

theorem fields_eq_nil (hs : ∀ c ∈ s, sep c = true) : fields sep s = [] := by
  rw [← List.append_nil s, fields_append hs, fields_nil]

/-- A text is cut where a separator starts the rest. -/
theorem fields_append_of_head (s : Text) (ht : ∀ c ∈ t.head?, sep c = true) :
    fields sep (s ++ t) = fields sep s ++ fields sep t := by
  cases t with
  | nil => rw [List.append_nil, fields_nil, List.append_nil]
  | cons c t => rw [fields_append_cons s t (ht c rfl), fields_cons t (ht c rfl)]

/-- A text is cut where a separator ends the first part. -/
theorem fields_append_of_last (t : Text) (hs : ∀ c ∈ s.getLast?, sep c = true) :
    fields sep (s ++ t) = fields sep s ++ fields sep t := by
  obtain rfl | ⟨s, c, rfl⟩ := List.eq_nil_or_concat s
  · rfl
  · rw [List.concat_eq_append] at hs ⊢
    have hc : sep c = true := hs c List.getLast?_concat
    rw [List.append_assoc, List.singleton_append, fields_append_cons s t hc, fields_concat s hc]

theorem fields_token (hne : s ≠ []) (hs : ∀ c ∈ s, sep c = false) : fields sep s = [s] := by
  unfold fields
  rw [List.splitOnP_eq_singleton hs, List.filter_cons_of_pos, List.filter_nil]
  cases s with
  | nil => exact absurd rfl hne
  | cons c s => rfl

@[simp] theorem join_singleton (between s : Text) : join between [s] = s := by
  simp [join, List.intercalate]

theorem join_cons_cons (between s t : Text) (parts : List Text) :
    join between (s :: t :: parts) = s ++ between ++ join between (t :: parts) := by
  simp [join, List.intercalate]

theorem mem_join {between : Text} {parts : List Text} (h : c ∈ join between parts) :
    c ∈ between ∨ ∃ s ∈ parts, c ∈ s := by
  induction parts with
  | nil => exact nomatch h
  | cons s parts ih =>
    cases parts with
    | nil =>
      rw [join_singleton] at h
      exact .inr ⟨s, List.mem_cons_self, h⟩
    | cons t parts =>
      rw [join_cons_cons, List.append_assoc, List.mem_append, List.mem_append] at h
      obtain h | h | h := h
      · exact .inr ⟨s, List.mem_cons_self, h⟩
      · exact .inl h
      · exact (ih h).imp_right fun ⟨u, hu, hc⟩ => ⟨u, List.mem_cons_of_mem _ hu, hc⟩

/-- Texts without separators in them are the fields of the text that joins them by separators. -/
theorem fields_join {between : Text} {parts : List Text} (hne : between ≠ [])
    (hbetween : ∀ c ∈ between, sep c = true)
    (hparts : ∀ s ∈ parts, s ≠ [] ∧ ∀ c ∈ s, sep c = false) :
    fields sep (join between parts) = parts := by
  match between, hne with
  | b :: between, _ =>
    rw [List.forall_mem_cons] at hbetween
    induction parts with
    | nil => rfl
    | cons s parts ih =>
      rw [List.forall_mem_cons] at hparts
      have hs : fields sep s = [s] := fields_token hparts.1.1 hparts.1.2
      cases parts with
      | nil => rw [join_singleton, hs]
      | cons t parts =>
        rw [join_cons_cons, List.append_assoc, List.cons_append, fields_append_cons _ _ hbetween.1,
          fields_append hbetween.2, ih hparts.2, hs, List.singleton_append]

end Fields

/-! ## White space at the ends -/

theorem forall_mem_head_cons {p : Char → Bool} {c : Char} (h : p c = true) (s : Text) :
    ∀ d ∈ (c :: s).head?, p d = true := by
  intro d hd
  rwa [← Option.some.inj hd]

theorem dropWhile_eq_self {p : Char → Bool} {s : Text} (h : ∀ c ∈ s.head?, p c = false) :
    s.dropWhile p = s := by
  cases s with
  | nil => rfl
  | cons c s => rw [List.dropWhile_cons_of_neg (by rw [h c rfl]; decide)]

theorem trim_eq_self {s : Text} (hfirst : ∀ c ∈ s.head?, isBlank c = false)
    (hlast : ∀ c ∈ s.getLast?, isBlank c = false) : trim s = s := by
  unfold trim trimEndBy
  rw [dropWhile_eq_self hfirst, dropWhile_eq_self, List.reverse_reverse]
  rwa [List.head?_reverse]

theorem trim_append {b : Text} (hb : ∀ c ∈ b, isBlank c = true) (s : Text) :
    trim (b ++ s) = trim s := by
  unfold trim
  rw [List.dropWhile_append_of_pos hb]

/-! ## Marks -/

section Marks

variable {c : Char} {s : Text}

theorem cut?_of_notMem (h : c ∉ s) : cut? [c] s = none := by
  induction s with
  | nil => rfl
  | cons d s ih =>
    rw [List.mem_cons, not_or] at h
    have hd : List.isPrefixOf [c] (d :: s) = false := by
      simp [List.isPrefixOf, h.1]
    unfold cut?
    rw [hd, ih h.2]
    rfl

theorem cut?_append_cons (h : c ∉ s) (t : Text) : cut? [c] (s ++ c :: t) = some (s, t) := by
  induction s with
  | nil =>
    have hc : List.isPrefixOf [c] (c :: t) = true := by
      simp [List.isPrefixOf]
    rw [List.nil_append]
    unfold cut?
    rw [hc]
    rfl
  | cons d s ih =>
    rw [List.mem_cons, not_or] at h
    have hd : List.isPrefixOf [c] (d :: (s ++ c :: t)) = false := by
      simp [List.isPrefixOf, h.1]
    rw [List.cons_append]
    unfold cut?
    rw [hd, ih h.2]
    rfl

theorem before_of_notMem (h : c ∉ s) : before [c] s = s := by
  unfold before
  rw [cut?_of_notMem h]

end Marks

/-! ## Lines -/

theorem unifyLineEnds_of_notMem {s : Text} (h : '\r' ∉ s) : unifyLineEnds s = s := by
  fun_induction unifyLineEnds s with
  | case1 s ih => exact absurd List.mem_cons_self h
  | case2 c s hne ih =>
    rw [List.mem_cons, not_or] at h
    rw [ih h.2]
  | case3 => rfl

theorem splitOn_flatMap {ls : List Text} (h : ∀ l ∈ ls, '\n' ∉ l) :
    (ls.flatMap fun l => l ++ ['\n']).splitOn '\n' = ls ++ [[]] := by
  induction ls with
  | nil => rfl
  | cons l ls ih =>
    rw [List.forall_mem_cons] at h
    rw [List.flatMap_cons, List.append_assoc, List.singleton_append, List.splitOn_append_cons_self,
      ih h.2, List.splitOn_eq_singleton h.1]
    rfl

/-- The lines of a text in which each line is ended. After the last end comes an empty line. -/
theorem lines_flatMap {ls : List Text} (h : ∀ l ∈ ls, '\n' ∉ l ∧ '\r' ∉ l) :
    lines (ls.flatMap fun l => l ++ ['\n']) = ls ++ [[]] := by
  unfold lines
  rw [unifyLineEnds_of_notMem, splitOn_flatMap fun l hl => (h l hl).1]
  intro hmem
  obtain ⟨l, hl, hmem⟩ := List.mem_flatMap.1 hmem
  obtain hmem | hmem := List.mem_append.1 hmem
  · exact (h l hl).2 hmem
  · exact absurd hmem (by decide)

/-! ## Whole numbers -/

theorem isDigit_of_mem_natural {n : Nat} {c : Char} (h : c ∈ natural n) : c.isDigit = true :=
  Nat.isDigit_of_mem_toDigits (by decide) (by decide) h

theorem natural_ne_nil (n : Nat) : natural n ≠ [] := Nat.toDigits_ne_nil

theorem isDigit_bounds {c : Char} (h : c.isDigit = true) : 48 ≤ c.toNat ∧ c.toNat ≤ 57 := by
  simp only [Char.isDigit, Bool.and_eq_true, decide_eq_true_eq] at h
  exact h

/-- A digit is one of ten characters, over which facts can be decided. -/
theorem mem_of_isDigit {c : Char} (h : c.isDigit = true) : c ∈ "0123456789".toList := by
  obtain ⟨hlo, hhi⟩ := isDigit_bounds h
  rw [← Char.ofNat_toNat c]
  generalize c.toNat = n at hlo hhi
  interval_cases n <;> decide

theorem digit?_of_isDigit {c : Char} (h : c.isDigit = true) :
    digit? 10 c = some (c.toNat - '0'.toNat) := by
  have hlt : c.toNat - '0'.toNat < 10 := by
    have hbounds := isDigit_bounds h
    change c.toNat - 48 < 10
    omega
  unfold digit?
  rw [if_pos h, Option.filter_some, if_pos (by simpa using hlt)]

theorem readDigits_of_digits {s : Text} (hs : ∀ c ∈ s, c.isDigit = true) {value : Nat}
    (hlimit : Nat.ofDigitChars 10 s value < unsignedLimit) :
    readDigits 10 value s = .ok (Nat.ofDigitChars 10 s value) := by
  induction s generalizing value with
  | nil => rfl
  | cons c s ih =>
    rw [List.forall_mem_cons] at hs
    rw [Nat.ofDigitChars_cons, Nat.mul_comm] at hlimit ⊢
    -- Digits only add to a value, so it is small on the way if it is small at the end.
    have hle : value * 10 + (c.toNat - '0'.toNat) ≤
        Nat.ofDigitChars 10 s (value * 10 + (c.toNat - '0'.toNat)) := by
      rw [Nat.ofDigitChars_eq_ofDigitChars_zero]
      have hpow : 0 < 10 ^ s.length := Nat.pow_pos (by decide)
      exact Nat.le_trans (Nat.le_mul_of_pos_left _ hpow) (Nat.le_add_right _ _)
    rw [readDigits, digit?_of_isDigit hs.1]
    dsimp only
    rw [if_neg (by omega), ih hs.2 hlimit]

theorem readNatural_natural {n : Nat} (h : n < unsignedLimit) : readNatural (natural n) = .ok n := by
  unfold readNatural
  rw [if_neg (by simpa using natural_ne_nil n)]
  have hvalue : Nat.ofDigitChars 10 (natural n) 0 = n := Nat.ofDigitChars_ten_toDigits
  rw [readDigits_of_digits (fun c hc => isDigit_of_mem_natural hc) (by rw [hvalue]; exact h), hvalue]

theorem readSigned_natural {magnitude : Text → Except ReadFault Nat} {n : Nat} :
    readSigned magnitude (natural n) = magnitude (natural n) >>= ofMagnitude false := by
  unfold readSigned
  -- A sign in front would be a digit.
  split
  · rename_i s hs
    have := isDigit_of_mem_natural (n := n) (c := '-') (by rw [hs]; exact List.mem_cons_self)
    exact absurd this (by decide)
  · rename_i s hs
    have := isDigit_of_mem_natural (n := n) (c := '+') (by rw [hs]; exact List.mem_cons_self)
    exact absurd this (by decide)
  · rfl

theorem readDecimal_integer {v : Int} (hlo : -(signedLimit : Int) ≤ v) (hhi : v < signedLimit) :
    readDecimal (integer v) = .ok (Int64.ofInt v) := by
  unfold readDecimal integer
  unfold signedLimit at hlo hhi
  have hsmall : v.natAbs < unsignedLimit := by
    unfold unsignedLimit
    omega
  split
  · rename_i hneg
    rw [readSigned, readNatural_natural hsmall]
    change ofMagnitude true v.natAbs = _
    unfold ofMagnitude signedLimit
    rw [if_pos rfl, if_pos (by omega), show -(v.natAbs : Int) = v by omega]
  · rename_i hneg
    rw [readSigned_natural, readNatural_natural hsmall]
    change ofMagnitude false v.natAbs = _
    unfold ofMagnitude signedLimit
    rw [if_neg (by decide), if_pos (by omega), show (v.natAbs : Int) = v by omega]

theorem readDecimal_signedInteger {v : Int} (hlo : -(signedLimit : Int) ≤ v)
    (hhi : v < signedLimit) : readDecimal (signedInteger v) = .ok (Int64.ofInt v) := by
  unfold signedInteger
  split
  · exact readDecimal_integer hlo hhi
  · rename_i hneg
    rw [← readDecimal_integer hlo hhi]
    unfold readDecimal integer
    rw [if_neg hneg, readSigned_natural]
    rfl

end BalancedTernary.Text
