import BalancedTernary.Word
import Mathlib.Data.List.Basic

/-!
# Checked access

The accesses by position that assembly and disassembly are made of, in a form in which a position
out of range ends the run and nothing takes its place: writes into a row of fixed length, slices,
and the loop that cuts a word into rows. Each has an answer as soon as its positions are in range.
-/

namespace BalancedTernary

/-- A run without an answer when it meets a position out of range, and otherwise with a value or a
fault. -/
abbrev Checked (ε α : Type) := ExceptT ε Option α

namespace Checked

variable {ε ε' α β : Type}

/-- The run that ends as `x` does, with all its positions in range. -/
def of (x : Except ε α) : Checked ε α := ExceptT.mk (some x)

theorem bind_eq_of {run : Checked ε α} {x : Except ε α} {next : α → Checked ε β}
    {f : α → Except ε β} (hrun : run = of x) (hnext : ∀ a, x = .ok a → next a = of (f a)) :
    run >>= next = of (x >>= f) := by
  subst hrun
  cases x with
  | error e => rfl
  | ok a => exact hnext a rfl

theorem access_bind {access : Option α} {a : α} (h : access = some a) (next : α → Checked ε β) :
    (liftM access >>= next : Checked ε β) = next a := by
  subst h
  rfl

theorem mapM_eq_of {run : α → Checked ε β} {f : α → Except ε β} {xs : List α}
    (h : ∀ a ∈ xs, run a = of (f a)) : xs.mapM run = of (xs.mapM f) := by
  induction xs with
  | nil => rfl
  | cons a xs ih =>
    rw [List.forall_mem_cons] at h
    rw [List.mapM_cons, List.mapM_cons]
    refine bind_eq_of h.1 fun b _ => bind_eq_of (ih h.2) fun bs _ => rfl

theorem adapt_of (g : ε → ε') (x : Except ε α) : ExceptT.adapt g (of x) = of (x.mapError g) := by
  cases x <;> rfl

theorem mapM_eq_some {access : α → Option β} {f : α → β} {xs : List α}
    (h : ∀ a ∈ xs, access a = some (f a)) : xs.mapM access = some (xs.map f) := by
  induction xs with
  | nil => rfl
  | cons a xs ih =>
    rw [List.forall_mem_cons] at h
    rw [List.mapM_cons, h.1, ih h.2]
    rfl

/-! ## Writes -/

/-- Writes the values into the row, the first of them at `position`. Where there is no value, the
row stays as it is. -/
def write {n : Nat} (row : Vector α n) (position : Nat) : List (Option α) → Option (Vector α n)
  | [] => some row
  | none :: values => write row (position + 1) values
  | some a :: values =>
    if h : position < n then write (row.set position a) (position + 1) values else none

theorem write_eq_some {n : Nat} (row : Vector α n) {position : Nat} {values : List (Option α)}
    (h : position + values.length ≤ n) :
    write row position values = some (Vector.ofFn fun k =>
      if position ≤ k then (values[k - position]?).join.getD row[k] else row[k]) := by
  induction values generalizing row position with
  | nil =>
    rw [write, Option.some.injEq]
    ext k hk
    simp
  | cons value values ih =>
    rw [List.length_cons] at h
    cases value with
    | none =>
      rw [write, ih row (by omega), Option.some.injEq]
      ext k hk
      rw [Vector.getElem_ofFn, Vector.getElem_ofFn]
      grind
    | some a =>
      rw [write, dif_pos (by omega), ih _ (by omega), Option.some.injEq]
      ext k hk
      rw [Vector.getElem_ofFn, Vector.getElem_ofFn]
      grind

/-! ## Slices -/

/-- The members from position `lo` up to position `hi`. -/
def slice (lo hi : Nat) (xs : List α) : Option (List α) :=
  if lo ≤ hi ∧ hi ≤ xs.length then some ((xs.drop lo).take (hi - lo)) else none

theorem slice_eq_some {lo hi : Nat} {xs : List α} (hlo : lo ≤ hi) (hhi : hi ≤ xs.length) :
    slice lo hi xs = some ((xs.drop lo).take (hi - lo)) :=
  if_pos ⟨hlo, hhi⟩

/-- The first `count` groups of `size` members. -/
def groups (size count : Nat) (xs : List α) : Option (List (List α)) :=
  (List.range count).mapM fun k => slice (size * k) (size * k + size) xs

theorem exists_groups {size count : Nat} {xs : List α} (h : xs.length = size * count) :
    ∃ gs, groups size count xs = some gs ∧ gs.flatten = xs ∧ ∀ g ∈ gs, g.length = size := by
  have hstop {k : Nat} (hk : k < count) : size * k + size ≤ xs.length := by
    rw [h, ← Nat.mul_succ]
    exact Nat.mul_le_mul_left size hk
  refine ⟨(List.range count).map fun k => (xs.drop (size * k)).take size, ?_, ?_, ?_⟩
  · apply mapM_eq_some
    intro k hk
    rw [slice_eq_some (Nat.le_add_right _ _) (hstop (List.mem_range.1 hk)),
      Nat.add_sub_cancel_left]
  · -- The first groups are the first members.
    have hfirst (c : Nat) : ((List.range c).map fun k => (xs.drop (size * k)).take size).flatten =
        xs.take (size * c) := by
      induction c with
      | zero => rfl
      | succ c ih =>
        rw [List.range_succ, List.map_append, List.flatten_append, ih, Nat.mul_succ, List.take_add]
        simp
    rw [hfirst, ← h, List.take_length]
  · intro g hg
    obtain ⟨k, hk, rfl⟩ := List.mem_map.1 hg
    have hbound := hstop (List.mem_range.1 hk)
    rw [List.length_take, List.length_drop]
    omega

/-- The row of number `row` and those after it, each a slice of `n` trytes or of those that are
left. A word without trytes has one row as well. -/
def rowsFrom (n : Nat) (w : Word) (row : Nat) : Option (List Word) :=
  -- Without this the loop would not end.
  if hn : n = 0 then none
  else if hrow : row * n < w.length ∨ row = 0 then do
    let first ← slice (row * n) (min ((row + 1) * n) w.length) w
    let rest ← rowsFrom n w (row + 1)
    return first :: rest
  else some []
termination_by w.length + 1 - row
decreasing_by
  have hle : row * 1 ≤ row * n := Nat.mul_le_mul_left row (Nat.pos_of_ne_zero hn)
  omega

theorem rowsFrom_eq_some {n : Nat} (hn : 0 < n) (w : Word) {row : Nat}
    (hrow : row * n < w.length ∨ row = 0) :
    rowsFrom n w row = some (Word.rows n (w.drop (row * n))) := by
  fun_induction rowsFrom n w row with
  | case1 row hzero => omega
  | case2 row hnonzero hstarts ih =>
    have hsucc : (row + 1) * n = row * n + n := Nat.succ_mul row n
    have hstart : row * n ≤ w.length := by
      obtain h | rfl := hstarts
      · exact Nat.le_of_lt h
      · simp
    rw [slice_eq_some (by omega) (Nat.min_le_right _ _), Word.rows]
    by_cases hmore : (row + 1) * n < w.length
    · have hlong : ¬ (n = 0 ∨ (w.drop (row * n)).length ≤ n) := by
        rw [List.length_drop]
        omega
      rw [ih (.inl hmore), if_neg hlong, List.drop_drop, Nat.min_eq_left (Nat.le_of_lt hmore),
        hsucc, Nat.add_sub_cancel_left]
      rfl
    · have hshort : n = 0 ∨ (w.drop (row * n)).length ≤ n := by
        rw [List.length_drop]
        omega
      have hend : rowsFrom n w (row + 1) = some [] := by
        rw [rowsFrom, dif_neg hnonzero, dif_neg (by omega)]
      rw [hend, if_pos hshort, Nat.min_eq_right (by omega), ← List.length_drop, List.take_length]
      rfl
  | case3 row hnonzero hends => exact absurd hrow hends

end Checked

end BalancedTernary
