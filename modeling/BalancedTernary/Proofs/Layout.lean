import BalancedTernary.Assembly.Program
import Mathlib.Data.List.Basic

/-!
# Layout

Placed fragments fill an image without gaps: in the order code before data, each one starts where the
one before it stops.
-/

namespace BalancedTernary.Assembly

/-- The number of trytes of all fragments. -/
def totalLength (fragments : List PlacedFragment) : Nat :=
  (fragments.flatMap (·.trytes)).length

@[simp] theorem totalLength_nil : totalLength [] = 0 := rfl

@[simp] theorem totalLength_cons (f : PlacedFragment) (fragments : List PlacedFragment) :
    totalLength (f :: fragments) = f.length + totalLength fragments := by
  unfold totalLength
  rw [List.flatMap_cons, List.length_append]
  rfl

theorem totalLength_append (fs gs : List PlacedFragment) :
    totalLength (fs ++ gs) = totalLength fs + totalLength gs := by
  unfold totalLength
  rw [List.flatMap_append, List.length_append]

/-- Each fragment starts where the one before it stops, the first one at `start`. -/
def Contiguous (start : Nat) : List PlacedFragment → Prop
  | [] => True
  | f :: rest => f.address = start ∧ Contiguous (start + f.length) rest

theorem contiguous_append {start : Nat} {fs gs : List PlacedFragment} :
    Contiguous start (fs ++ gs) ↔
      Contiguous start fs ∧ Contiguous (start + totalLength fs) gs := by
  induction fs generalizing start with
  | nil => simp only [List.nil_append, Contiguous, true_and, totalLength_nil, Nat.add_zero]
  | cons f fs ih =>
    simp only [List.cons_append, Contiguous, ih, totalLength_cons, and_assoc, Nat.add_assoc]

theorem Contiguous.bounds {start : Nat} {fs : List PlacedFragment} (h : Contiguous start fs)
    {f : PlacedFragment} (hf : f ∈ fs) :
    start ≤ f.address ∧ f.stop ≤ start + totalLength fs := by
  induction fs generalizing start with
  | nil => exact nomatch hf
  | cons g fs ih =>
    obtain ⟨hg, hrest⟩ := h
    rw [totalLength_cons]
    obtain rfl | hf := List.mem_cons.1 hf
    · unfold PlacedFragment.stop
      omega
    · have := ih hrest hf
      omega

/-- No two fragments share a tryte. -/
theorem Contiguous.eq_of_overlap {start : Nat} {fs : List PlacedFragment} (h : Contiguous start fs)
    {f g : PlacedFragment} (hf : f ∈ fs) (hg : g ∈ fs) {x : Nat}
    (hfx : f.address ≤ x ∧ x < f.stop) (hgx : g.address ≤ x ∧ x < g.stop) : f = g := by
  induction fs generalizing start with
  | nil => exact nomatch hf
  | cons e fs ih =>
    obtain ⟨he, hrest⟩ := h
    have hstop : e.stop = start + e.length := by
      unfold PlacedFragment.stop
      rw [he]
    rcases List.mem_cons.1 hf with rfl | hlater <;> rcases List.mem_cons.1 hg with rfl | hlater'
    · rfl
    · have hbounds := hrest.bounds hlater'
      omega
    · have hbounds := hrest.bounds hlater
      omega
    · exact ih hrest hlater hlater'

/-- Behind every fragment but the last one there is another one. -/
theorem Contiguous.exists_next {start : Nat} {fs : List PlacedFragment} (h : Contiguous start fs)
    {f : PlacedFragment} (hf : f ∈ fs) (hlast : fs.getLast? ≠ some f) :
    ∃ g ∈ fs, g.address = f.stop := by
  induction fs generalizing start with
  | nil => exact nomatch hf
  | cons e fs ih =>
    obtain ⟨he, hrest⟩ := h
    cases fs with
    | nil =>
      rw [List.eq_of_mem_singleton hf] at hlast
      exact absurd rfl hlast
    | cons g fs =>
      rcases List.mem_cons.1 hf with rfl | hf
      · refine ⟨g, List.mem_cons_of_mem _ List.mem_cons_self, hrest.1.trans ?_⟩
        unfold PlacedFragment.stop
        rw [he]
      · rw [List.getLast?_cons_cons] at hlast
        obtain ⟨g', hg', haddress⟩ := ih hrest hf hlast
        exact ⟨g', List.mem_cons_of_mem _ hg', haddress⟩

/-! ## Both segments -/

/-- The fragments in the order of their addresses. -/
def arrange (fragments : List PlacedFragment) : List PlacedFragment :=
  fragments.filter (·.isIn .code) ++ fragments.filter (·.isIn .data)

theorem mem_arrange {fragments : List PlacedFragment} {f : PlacedFragment} :
    f ∈ arrange fragments ↔ f ∈ fragments := by
  unfold arrange
  rw [List.mem_append, List.mem_filter, List.mem_filter]
  cases hsegment : f.segment <;> simp [Fragment.isIn, hsegment]

theorem totalLength_arrange (fragments : List PlacedFragment) :
    totalLength (arrange fragments) = totalLength fragments := by
  unfold arrange
  induction fragments with
  | nil => rfl
  | cons f fragments ih =>
    rw [totalLength_append] at ih ⊢
    cases hsegment : f.segment <;>
      simp only [List.filter_cons, Fragment.isIn, hsegment, decide_true, reduceCtorEq,
        decide_false, if_true, Bool.false_eq_true, if_false, totalLength_cons] at ih ⊢ <;>
      omega

theorem perm_filter_segments {α : Type} (segment : α → Segment) (xs : List α) :
    ((xs.filter fun x => decide (segment x = .code)) ++
      (xs.filter fun x => decide (segment x = .data))).Perm xs := by
  have hdata : (xs.filter fun x => decide (segment x = .data)) =
      xs.filter fun x => !decide (segment x = .code) := by
    apply List.filter_congr
    intro x _
    cases hsegment : segment x <;> simp
  rw [hdata]
  exact List.filter_append_perm _ _

/-- Nothing moves when the code comes first already. -/
theorem filter_code_append_filter_data {α : Type} {segment : α → Segment} {xs : List α}
    (h : xs.Pairwise fun x y => segment x = .data → segment y = .data) :
    (xs.filter fun x => decide (segment x = .code)) ++
      (xs.filter fun x => decide (segment x = .data)) = xs := by
  induction h with
  | nil => rfl
  | @cons x xs hx _ ih =>
    cases hsegment : segment x with
    | code =>
      rw [List.filter_cons_of_pos (by simp [hsegment]), List.filter_cons_of_neg (by simp [hsegment]),
        List.cons_append, ih]
    | data =>
      have hcode : (x :: xs).filter (fun x => decide (segment x = .code)) = [] := by
        rw [List.filter_eq_nil_iff, List.forall_mem_cons]
        exact ⟨by simp [hsegment], fun y hy => by simp [hx y hy hsegment]⟩
      have hdata : (x :: xs).filter (fun x => decide (segment x = .data)) = x :: xs := by
        rw [List.filter_eq_self, List.forall_mem_cons]
        exact ⟨by simp [hsegment], fun y hy => by simp [hx y hy hsegment]⟩
      rw [hcode, hdata, List.nil_append]

/-- A segment is placed without gaps. -/
theorem contiguous_placeFrom (codeAt dataAt : Nat) (fragments : List Fragment) :
    Contiguous codeAt ((placeFrom codeAt dataAt fragments).filter (·.isIn .code)) ∧
      Contiguous dataAt ((placeFrom codeAt dataAt fragments).filter (·.isIn .data)) := by
  induction fragments generalizing codeAt dataAt with
  | nil => exact ⟨trivial, trivial⟩
  | cons f fragments ih =>
    unfold placeFrom
    cases hsegment : f.segment <;>
      simp only [List.filter_cons, Fragment.isIn, hsegment, decide_true, reduceCtorEq,
        decide_false, if_true, Bool.false_eq_true, if_false]
    -- A fragment moves on the next address of its own segment and leaves the other.
    · exact ⟨⟨rfl, (ih _ _).1⟩, (ih _ _).2⟩
    · exact ⟨(ih _ _).1, ⟨rfl, (ih _ _).2⟩⟩

theorem toFragment_placeFrom (codeAt dataAt : Nat) (fragments : List Fragment) :
    (placeFrom codeAt dataAt fragments).map (·.toFragment) = fragments := by
  induction fragments generalizing codeAt dataAt with
  | nil => rfl
  | cons f fragments ih =>
    unfold placeFrom
    cases f.segment <;> simp only [List.map_cons, ih]

theorem segmentSize_cons (segment : Segment) (f : Fragment) (fragments : List Fragment) :
    segmentSize segment (f :: fragments) =
      (if f.segment = segment then f.length else 0) + segmentSize segment fragments := by
  unfold segmentSize
  by_cases h : f.segment = segment <;> simp [Fragment.isIn, h, Fragment.length]

/-- The address of a fragment of code is the length of the code before it. -/
theorem address_placeFrom {codeAt dataAt : Nat} {fragments : List Fragment} {k : Nat}
    {f : PlacedFragment} (hf : (placeFrom codeAt dataAt fragments)[k]? = some f)
    (hcode : f.segment = .code) :
    f.address = codeAt + segmentSize .code (fragments.take k) := by
  induction fragments generalizing codeAt dataAt k with
  | nil => exact nomatch hf
  | cons g fragments ih =>
    unfold placeFrom at hf
    cases k with
    | zero =>
      cases hg : g.segment with
      | code =>
        rw [hg] at hf
        rw [← Option.some.inj hf]
        rfl
      | data =>
        -- The first fragment would be the one asked for, and it is not code.
        rw [hg] at hf
        rw [← Option.some.inj hf, hg] at hcode
        exact nomatch hcode
    | succ k =>
      rw [List.take_succ_cons, segmentSize_cons]
      cases hg : g.segment with
      | code =>
        rw [hg] at hf
        rw [ih hf, if_pos rfl, Nat.add_assoc]
      | data =>
        rw [hg] at hf
        rw [ih hf, if_neg nofun, Nat.zero_add]

theorem toFragment_place (fragments : List Fragment) :
    (place fragments).map (·.toFragment) = fragments :=
  toFragment_placeFrom _ _ _

/-- The data segment starts where the code segment stops. -/
theorem totalLength_code_place (fragments : List Fragment) :
    totalLength ((place fragments).filter (·.isIn .code)) = segmentSize .code fragments := by
  unfold segmentSize
  conv_rhs => rw [← toFragment_place fragments, List.filter_map, List.flatMap_map]
  rfl

theorem contiguous_place (fragments : List Fragment) :
    Contiguous 0 (arrange (place fragments)) := by
  have h := contiguous_placeFrom 0 (segmentSize .code fragments) fragments
  unfold arrange
  rw [contiguous_append, totalLength_code_place, Nat.zero_add]
  exact h

end BalancedTernary.Assembly
