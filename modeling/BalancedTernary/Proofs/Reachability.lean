import BalancedTernary.Proofs.Tiling

/-!
# Reachable instructions

An address is marked only when execution can come there, and it is the marks that decide between the
rows: a row of code starts at a marked address, and a row of data has no mark in it.
-/

namespace BalancedTernary.Disassembly

/-! ## Marks -/

/-- Execution that starts at one of the addresses `starts` can come to an instruction. -/
inductive Reaches (successors : Nat → Option (List Nat)) (starts : List Nat) : Nat → Prop where
  | start {a : Nat} : a ∈ starts → (successors a).isSome → Reaches successors starts a
  | step {a b : Nat} {next : List Nat} : Reaches successors starts a → successors a = some next →
      b ∈ next → (successors b).isSome → Reaches successors starts b

section Explore

variable {successors : Nat → Option (List Nat)} {reached : Array Bool} {starts pending : List Nat}
  {a : Nat}

theorem Reaches.of_starts (h : Reaches successors starts a)
    (hstarts : ∀ b ∈ starts, (successors b).isSome → Reaches successors pending b) :
    Reaches successors pending a := by
  induction h with
  | start hmem hsome => exact hstarts _ hmem hsome
  | step _ hnext hmem hsome ih => exact .step ih hnext hmem hsome

theorem Reaches.cons (h : Reaches successors pending a) (b : Nat) :
    Reaches successors (b :: pending) a :=
  h.of_starts fun _ hmem hsome => .start (List.mem_cons_of_mem _ hmem) hsome

/-- Every new mark is at an address that can be reached. -/
theorem reaches_of_explore (h : (explore successors reached pending)[a]? = some true) :
    reached[a]? = some true ∨ Reaches successors pending a := by
  fun_induction explore successors reached pending with
  | case1 reached => exact .inl h
  | case2 reached address pending hlt hr next hnext ih =>
    have haddress : (successors address).isSome := Option.isSome_of_eq_some hnext
    obtain h | h := ih h
    · by_cases heq : address = a
      · subst heq
        exact .inr (.start List.mem_cons_self haddress)
      · rw [Array.getElem?_set_ne hlt heq] at h
        exact .inl h
    · -- What can be reached from the successors can be reached through the address.
      refine .inr (h.of_starts fun b hb hsome => ?_)
      rcases List.mem_append.1 hb with hb | hb
      · exact .step (.start List.mem_cons_self haddress) hnext hb hsome
      · exact .start (List.mem_cons_of_mem _ hb) hsome
  | case3 reached address pending hlt hr hnone ih => exact (ih h).imp_right (·.cons address)
  | case4 reached address pending hlt hr ih => exact (ih h).imp_right (·.cons address)
  | case5 reached address pending hlt ih => exact (ih h).imp_right (·.cons address)

end Explore

section Marks

variable {image : Word} {a : Nat}

theorem size_decoded (image : Word) : (decoded image).size = image.length := by
  rw [decoded, List.size_toArray, length_sweep]

theorem successors?_eq_some_iff {next : List Nat} :
    successors? (decoded image) a = some next ↔
      ∃ d, a < image.length ∧ decode? a (image.drop a) = some d ∧
        d.successors image.length a = next := by
  unfold successors?
  rw [size_decoded, decoded, List.getElem?_toArray]
  by_cases ha : a < image.length
  · rw [getElem?_sweep 0 ha, Nat.zero_add]
    simp [ha]
  · rw [List.getElem?_eq_none (by rw [length_sweep]; omega)]
    simp [ha]

/-- The address is marked as that of an instruction. -/
def Marked (image : Word) (a : Nat) : Prop := (reached (decoded image))[a]? = some true

instance (image : Word) (a : Nat) : Decidable (Marked image a) :=
  inferInstanceAs (Decidable (_ = _))

theorem Marked.reaches (h : Marked image a) : Reaches (successors? (decoded image)) [0] a := by
  refine (reaches_of_explore h).resolve_left fun h => ?_
  obtain ⟨hlt, htrue⟩ := Array.getElem?_eq_some_iff.1 h
  rw [Array.getElem_replicate] at htrue
  exact nomatch htrue

/-- A cell has an instruction exactly where there is a mark. -/
theorem getElem?_cells (image : Word) (a : Nat) :
    (cells image)[a]? =
      image[a]?.map fun t => (t, if Marked image a then decode? a (image.drop a) else none) := by
  by_cases ha : a < image.length
  · have hreached : a < (reached (decoded image)).size := by
      rw [reached, size_explore, Array.size_replicate, size_decoded]
      exact ha
    have hdecoded : (decoded image)[a]? = some (decode? a (image.drop a)) := by
      rw [decoded, List.getElem?_toArray, getElem?_sweep 0 ha, Nat.zero_add]
    have hzip : ((decoded image).zip (reached (decoded image)))[a]? =
        some (decode? a (image.drop a), (reached (decoded image))[a]) :=
      Array.getElem?_zip_eq_some.2 ⟨hdecoded, Array.getElem?_eq_getElem hreached⟩
    have hmarked : Marked image a ↔ (reached (decoded image))[a] = true := by
      unfold Marked
      rw [Array.getElem?_eq_getElem hreached, Option.some_inj]
    have hinstruction : (instructions image)[a]? =
        some (if Marked image a then decode? a (image.drop a) else none) := by
      unfold instructions
      rw [List.getElem?_map, Array.getElem?_toList, hzip]
      simp [hmarked]
    rw [List.getElem?_eq_getElem ha, cells_eq]
    exact List.getElem?_zip_eq_some.2 ⟨List.getElem?_eq_getElem ha, hinstruction⟩
  · rw [List.getElem?_eq_none (by rw [length_cells]; omega), List.getElem?_eq_none (by omega)]
    rfl

theorem marked_of_cell {t : Tryte} {d : Decoded} (h : (cells image)[a]? = some (t, some d)) :
    Marked image a ∧ decode? a (image.drop a) = some d := by
  refine ⟨?_, decode?_of_mem_cells h⟩
  rw [getElem?_cells] at h
  obtain ⟨t', -, h⟩ := Option.map_eq_some_iff.1 h
  by_contra hmarked
  rw [if_neg hmarked] at h
  exact nomatch (Prod.mk.inj h).2

end Marks

/-! ## Rows -/

/-- The row says what the cells say. -/
def Row.Renders (image : Word) : Row → Prop
  | code a d => ∃ t, (cells image)[a]? = some (t, some d)
  | data a trytes => ∀ j t, trytes[j]? = some t → (cells image)[a + j]? = some (t, none)

theorem renders_ofCells {image : Word} {start : Nat} {cs : List Cell}
    (hcs : cs = (cells image).drop start) :
    ∀ row ∈ Row.ofCells start cs, row.Renders image := by
  fun_induction Row.ofCells start cs with
  | case1 start => exact List.forall_mem_nil _
  | case2 start t d rest ih =>
    have hcell : (cells image)[start]? = some (t, some d) := by
      rw [← List.head?_drop, ← hcs]
      rfl
    have hpos : 0 < d.length :=
      (show (Row.code start d).Shows image from decode?_of_mem_cells hcell).bounds.1
    rw [List.forall_mem_cons]
    refine ⟨⟨t, hcell⟩, ih ?_⟩
    rw [tail_eq_drop hcs, List.drop_drop, Nat.add_assoc, Nat.add_sub_cancel' hpos]
  | case3 start t rest run ih =>
    have hsplit : rest = run ++ rest.dropWhile fun cell => cell.2.isNone :=
      List.takeWhile_append_dropWhile.symm
    have hnone : ∀ cell ∈ (t, none) :: run, cell.2 = none := by
      rw [List.forall_mem_cons]
      refine ⟨rfl, fun cell hcell => Option.isNone_iff_eq_none.1 ?_⟩
      exact List.all_eq_true.1 List.all_takeWhile cell hcell
    rw [hsplit] at hcs
    rw [List.forall_mem_cons]
    refine ⟨fun j u hu => ?_, ih (shows_run hcs).2.1⟩
    -- The trytes of the row are those of the cells of the run, and none of these is marked.
    rw [← List.map_cons (f := Prod.fst) (a := (t, none)), List.getElem?_map] at hu
    obtain ⟨cell, hcell, rfl⟩ := Option.map_eq_some_iff.1 hu
    have hj := (List.getElem?_eq_some_iff.1 hcell).1
    rw [← List.getElem?_drop, ← hcs, ← List.cons_append, List.getElem?_append_left hj, hcell,
      ← hnone cell (List.mem_of_getElem? hcell)]

theorem renders_rows {image : Word} {row : Row} (h : row ∈ rows image) : row.Renders image :=
  renders_ofCells rfl row h

/-- Every tryte from `start` on is in a row. -/
theorem Tiles.exists_mem {image : Word} {start : Nat} {rows : List Row}
    (h : Tiles image start rows) {x : Nat} (hlo : start ≤ x) (hhi : x < image.length) :
    ∃ row ∈ rows, row.address ≤ x ∧ x < row.stop := by
  induction rows generalizing start with
  | nil =>
    have hstart : start = image.length := h
    omega
  | cons row rows ih =>
    obtain ⟨haddress, -, hrest⟩ := h
    by_cases hx : x < row.stop
    · exact ⟨row, List.mem_cons_self, by omega, hx⟩
    · unfold Row.stop at hx
      obtain ⟨r, hr, hin⟩ := ih hrest (by omega)
      exact ⟨r, List.mem_cons_of_mem _ hr, hin⟩

end BalancedTernary.Disassembly
