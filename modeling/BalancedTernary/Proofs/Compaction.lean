import BalancedTernary.Proofs.RoundTrip
import BalancedTernary.Proofs.Symbols

/-!
# Disassemblies of images in any order

A disassembly can be assembled wherever its data stands. The code moves together and the data goes
behind it. On the way distances between instructions can only shrink, so what a branch could reach
it still reaches.
-/

namespace BalancedTernary.Disassembly

open Assembly

/-! ## Lengths of rows -/

/-- The number of trytes of the rows. -/
def rowsLength (rows : List Row) : Nat := (rows.map Row.length).sum

def codeRows (rows : List Row) : List Row := rows.filter fun row => row.segment = .code

/-- The number of trytes in rows of code. -/
def codeLength (rows : List Row) : Nat := rowsLength (codeRows rows)

/-- The trytes that a row shows as data. -/
def Row.values : Row → Word
  | code _ _ => []
  | data _ trytes => trytes

@[simp] theorem rowsLength_cons (row : Row) (rows : List Row) :
    rowsLength (row :: rows) = row.length + rowsLength rows := rfl

theorem rowsLength_append (rows rows' : List Row) :
    rowsLength (rows ++ rows') = rowsLength rows + rowsLength rows' := by
  simp [rowsLength]

theorem codeLength_append (rows rows' : List Row) :
    codeLength (rows ++ rows') = codeLength rows + codeLength rows' := by
  simp [codeLength, codeRows, rowsLength_append]

@[simp] theorem codeLength_cons (row : Row) (rows : List Row) :
    codeLength (row :: rows) =
      (if row.segment = .code then row.length else 0) + codeLength rows := by
  by_cases h : row.segment = .code <;> simp [codeLength, codeRows, h]

theorem codeLength_le (rows : List Row) : codeLength rows ≤ rowsLength rows := by
  induction rows with
  | nil => exact Nat.le_refl 0
  | cons row rows ih =>
    rw [codeLength_cons, rowsLength_cons]
    split <;> omega

/-- From one row to a later one, the distance in code is at most the distance. -/
theorem codeLength_take_le (rows : List Row) {i j : Nat} (h : i ≤ j) :
    codeLength (rows.take i) ≤ codeLength (rows.take j) ∧
      codeLength (rows.take j) + rowsLength (rows.take i) ≤
        codeLength (rows.take i) + rowsLength (rows.take j) := by
  have hsplit : rows.take j = rows.take i ++ (rows.take j).drop i := by
    conv_lhs => rw [← List.take_append_drop i (rows.take j)]
    rw [List.take_take, Nat.min_eq_left h]
  have hbetween := codeLength_le ((rows.take j).drop i)
  rw [hsplit, codeLength_append, rowsLength_append]
  omega

theorem codeRows_dataFrom (address : Nat) (ws : List Word) :
    codeRows (Row.dataFrom address ws) = [] := by
  unfold codeRows
  rw [List.filter_eq_nil_iff]
  intro row hrow
  simp [Row.segment_of_mem_dataFrom hrow]

theorem codeRows_pieces (rows : List Row) : codeRows (rows.flatMap Row.pieces) = codeRows rows := by
  induction rows with
  | nil => rfl
  | cons row rows ih =>
    unfold codeRows at ih ⊢
    rw [List.flatMap_cons, List.filter_append, ih]
    cases row with
    | code address d => rfl
    | data address trytes =>
      show codeRows (Row.dataFrom address (trytes.rows 8)) ++ _ = _
      rw [codeRows_dataFrom, List.nil_append]
      rfl

theorem flatMap_values_dataFrom (address : Nat) (ws : List Word) :
    (Row.dataFrom address ws).flatMap Row.values = ws.flatten := by
  induction ws generalizing address with
  | nil => rfl
  | cons w ws ih =>
    rw [Row.dataFrom, List.flatMap_cons, ih]
    rfl

theorem flatMap_values_pieces (rows : List Row) :
    (rows.flatMap Row.pieces).flatMap Row.values = rows.flatMap Row.values := by
  rw [List.flatMap_assoc]
  congr 1
  funext row
  cases row with
  | code address d => rfl
  | data address trytes =>
    show (Row.dataFrom address (trytes.rows 8)).flatMap Row.values = trytes
    rw [flatMap_values_dataFrom, Word.flatten_rows]

namespace Tiles

variable {image : Word} {start : Nat} {rows : List Row}

theorem rowsLength_eq (h : Tiles image start rows) : start + rowsLength rows = image.length := by
  induction rows generalizing start with
  | nil => exact h
  | cons row rows ih =>
    rw [rowsLength_cons, ← Nat.add_assoc]
    exact ih h.2.2

theorem address_eq (h : Tiles image start rows) {k : Nat} {row : Row} (hk : rows[k]? = some row) :
    row.address = start + rowsLength (rows.take k) := by
  induction rows generalizing start k with
  | nil => exact nomatch hk
  | cons r rows ih =>
    cases k with
    | zero =>
      rw [← Option.some.inj hk]
      exact h.1
    | succ k =>
      rw [List.take_succ_cons, rowsLength_cons, ← Nat.add_assoc]
      exact ih h.2.2 hk

end Tiles

/-! ## Fragments of rows -/

variable {image : Word} {labels : List Nat}

/-- What the fragment of a row has of it. -/
structure Row.Prints (image : Word) (labels : List Nat) (row : Row) (f : Fragment) : Prop
    extends row.Assembles image labels f where
  source : f.source = row.body labels
  values : row.segment = .data → f.trytes = row.values.map .tryte

theorem Row.Says.prints {row : Row} {s : Statement} {f : Fragment} (h : row.Says labels s)
    (hshows : row.Shows image) (hf : s.Yields f) : row.Prints image labels f := by
  have hknown := h.known hshows hf
  obtain ⟨hsegment, hsplit⟩ := h
  obtain ⟨label, body, hsplit', hencode⟩ := hf
  obtain ⟨rfl, rfl⟩ := Prod.mk.inj (Except.ok.inj (hsplit.symm.trans hsplit'))
  obtain ⟨trytes, htrytes, rfl⟩ := Statement.encode_eq_ok_iff.1 hencode
  obtain ⟨slots, hslots, hrestores⟩ : ∃ slots,
      s.assemble (row.label? labels) (row.body labels) = .ok slots ∧
        List.Forall₂ (Restores labels row.stop) slots (row.canonical image) :=
    hshows.exists_assemble hknown hsegment _
  obtain rfl : slots = trytes := Except.ok.inj (hslots.symm.trans htrytes)
  refine ⟨⟨hsegment, rfl, hrestores⟩, rfl, fun hdata => ?_⟩
  cases row with
  | code address d => exact nomatch hdata
  | data address values =>
    rw [Statement.assemble_of_data hsegment] at htrytes
    exact (Except.ok.inj ((assemble_dataText hshows.1).symm.trans htrytes)).symm

/-- The fragments of a disassembly that can be read. -/
theorem forall₂_prints {fragments : List Fragment}
    (hyields : List.Forall₂ Statement.Yields (statements [';'] (disassemble image)) fragments) :
    List.Forall₂ (Row.Prints image (labelAddresses image)) (pieces image) fragments := by
  -- A row and its fragment are tied by the statement that the row was printed as.
  have hread : List.Forall₂ (fun row f => ∃ s, Row.Says (labelAddresses image) row s ∧ s.Yields f)
      (pieces image) fragments :=
    Outcome.forall₂_comp (fun _ s _ hsaid hf => ⟨s, hsaid, hf⟩) (says_disassemble image) hyields
  refine Outcome.forall₂_imp_of_mem (fun row hrow f _ hrowf => ?_) hread
  obtain ⟨s, hsaid, hf⟩ := hrowf
  exact hsaid.prints ((tiles_pieces image).shows hrow) hf

/-! ## The new addresses -/

section Addresses

variable {fragments : List Fragment}

theorem segmentSize_take (hprints : List.Forall₂ (Row.Prints image labels) (pieces image) fragments)
    (k : Nat) : segmentSize .code (fragments.take k) = codeLength ((pieces image).take k) := by
  have hall : List.Forall₂ (fun row f => f.segment = Row.segment row ∧ f.length = row.length)
      ((pieces image).take k) (fragments.take k) := by
    apply List.forall₂_take
    refine Outcome.forall₂_imp_of_mem (fun row hrow f _ hf => ?_) hprints
    exact ⟨hf.segment, hf.toAssembles.length ((tiles_pieces image).shows hrow)⟩
  generalize (pieces image).take k = rows at hall
  generalize fragments.take k = fs at hall
  induction hall with
  | nil => rfl
  | cons h _ ih => rw [segmentSize_cons, codeLength_cons, h.1, h.2, ih]

variable (hprints : List.Forall₂ (Row.Prints image labels) (pieces image) fragments) {k : Nat}
  {address : Nat} {d : Decoded} (hk : (pieces image)[k]? = some (.code address d))

include hprints hk

/-- A row of code goes to the end of the code before it. -/
theorem exists_placed_code : ∃ f, (place fragments)[k]? = some f ∧
    (Row.code address d).Prints image labels f.toFragment ∧
      f.address = codeLength ((pieces image).take k) ∧
      f.stop = codeLength ((pieces image).take (k + 1)) := by
  obtain ⟨g, hg, hrow⟩ := Outcome.forall₂_getElem? hprints hk
  have hplaced : (place fragments)[k]?.map (·.toFragment) = some g := by
    rw [← List.getElem?_map, toFragment_place, hg]
  obtain ⟨f, hf, rfl⟩ := Option.map_eq_some_iff.1 hplaced
  have haddress : f.address = codeLength ((pieces image).take k) := by
    rw [address_placeFrom hf hrow.segment, Nat.zero_add, segmentSize_take hprints]
  have hlength : f.length = d.length :=
    hrow.toAssembles.length ((tiles_pieces image).shows (List.mem_of_getElem? hk))
  refine ⟨f, hf, hrow, haddress, ?_⟩
  rw [List.take_add_one, hk, codeLength_append]
  unfold PlacedFragment.stop
  rw [haddress, hlength]
  rfl

end Addresses

/-! ## References -/

section References

variable {fragments : List Fragment} {table : SymbolTable Nat}
  (hprints : List.Forall₂ (Row.Prints image (labelAddresses image)) (pieces image) fragments)
  (htable : declareFrom .empty 0 fragments = .ok table)

include hprints htable

/-- A label leads to where its row went. -/
theorem exists_address?_labelName {target : Nat} (htarget : target ∈ labelAddresses image) :
    ∃ j, target = rowsLength ((pieces image).take j) ∧
      Symbols.address? ⟨table, place fragments⟩ (labelName target) =
        some (codeLength ((pieces image).take j)) := by
  obtain ⟨d, hd⟩ := exists_code_of_mem_labelAddresses htarget
  obtain ⟨j, hj⟩ := List.mem_iff_getElem?.1 (Row.code_mem_pieces.2 hd)
  obtain ⟨f, hf, hrow, haddress, -⟩ := exists_placed_code hprints hj
  have hlabel : f.label = some (labelName target) := hrow.label.trans (if_pos htarget)
  refine ⟨j, ?_, ?_⟩
  · have hstart := (tiles_pieces image).address_eq hj
    rw [Nat.zero_add] at hstart
    exact hstart
  · rw [address?_eq_some_iff htable]
    exact ⟨f, List.mem_of_getElem? hf, hlabel, haddress⟩

/-- A reference that one tryte held is still held by one, since its ends did not move apart. -/
theorem exists_resolve {k : Nat} {address : Nat} {d : Decoded}
    (hk : (pieces image)[k]? = some (.code address d)) {f : PlacedFragment}
    (hf : f.stop = codeLength ((pieces image).take (k + 1))) (base : Int64) {slot : Relocatable}
    {t : Tryte} (h : Restores (labelAddresses image) (Row.code address d).stop slot t) :
    ∃ t', f.resolve ⟨table, place fragments⟩ base slot = .ok t' := by
  cases slot with
  | tryte s => exact ⟨s, rfl⟩
  | address label => exact h.elim
  | displacement label =>
    obtain ⟨target, htarget, rfl, ht⟩ := h
    obtain ⟨j, hj, haddress⟩ := exists_address?_labelName hprints htable htarget
    have hstop : (Row.code address d).stop = rowsLength ((pieces image).take (k + 1)) := by
      have hstart := (tiles_pieces image).address_eq hk
      rw [List.take_add_one, hk, rowsLength_append]
      unfold Row.stop
      rw [hstart, Nat.zero_add]
      rfl
    have hbounds := t.toInt_bounds
    have hdistance : -364 ≤ (codeLength ((pieces image).take j) : Int) - f.stop ∧
        (codeLength ((pieces image).take j) : Int) - f.stop ≤ 364 := by
      rw [hstop, hj] at ht
      rw [hf]
      -- Forward or backward, the code between the ends is no more than all there was between them.
      obtain hle | hle := Nat.le_total j (k + 1)
      · have hmoved := codeLength_take_le (pieces image) hle
        omega
      · have hmoved := codeLength_take_le (pieces image) hle
        omega
    unfold PlacedFragment.resolve
    dsimp only
    rw [haddress]
    apply exists_referenceTryte
    · rw [toInt_ofNat_sub_ofNat] <;> omega
    · rw [toInt_ofNat_sub_ofNat] <;> omega

theorem exists_links_disassemble (base : Int64) :
    ∃ p : Program, p.Links base table fragments := by
  apply exists_links
  intro f hf
  obtain ⟨k, hk⟩ := List.mem_iff_getElem?.1 hf
  have hfragment : fragments[k]? = some f.toFragment := by
    rw [← toFragment_place fragments, List.getElem?_map, hk]
    rfl
  obtain ⟨row, hrow, hprint⟩ :=
    Outcome.forall₂_getElem? (R := flip (Row.Prints image (labelAddresses image)))
      hprints.flip hfragment
  cases row with
  | code address d =>
    obtain ⟨g, hg, -, -, hstop⟩ := exists_placed_code hprints hrow
    obtain rfl : f = g := Option.some.inj (hk.symm.trans hg)
    obtain ⟨code, -, hcode⟩ := Outcome.exists_forall₂ (S := fun _ _ => True)
      (T := fun slot t => f.resolve ⟨table, place fragments⟩ base slot = .ok t)
      hprint.trytes fun slot _ t ht => by
        obtain ⟨t', ht'⟩ := exists_resolve hprints htable hrow hstop base ht
        exact ⟨t', trivial, ht'⟩
    exact ⟨code, hcode⟩
  | data address trytes =>
    refine ⟨trytes, ?_⟩
    have htrytes : f.trytes = trytes.map .tryte := hprint.values rfl
    rw [htrytes, List.forall₂_map_left_iff, List.forall₂_same]
    exact fun t _ => rfl

end References

/-! ## The moved program -/

theorem getElem?_filter_append {α : Type} {p : α → Bool} {xs : List α} {k : Nat} {x : α}
    (hx : xs[k]? = some x) (hp : p x = true) (ys : List α) :
    (xs.filter p ++ ys)[((xs.take k).filter p).length]? = some x := by
  induction xs generalizing k with
  | nil => exact nomatch hx
  | cons y xs ih =>
    cases k with
    | zero =>
      obtain rfl : y = x := Option.some.inj hx
      rw [List.filter_cons_of_pos hp]
      rfl
    | succ k =>
      rw [List.take_succ_cons]
      by_cases hy : p y = true
      · rw [List.filter_cons_of_pos hy, List.filter_cons_of_pos hy, List.cons_append]
        exact ih hx
      · rw [List.filter_cons_of_neg hy, List.filter_cons_of_neg hy]
        exact ih hx

theorem length_filter_code {α : Type} (segment : α → Segment) {rows : List Row} {xs : List α}
    (h : rows.map Row.segment = xs.map segment) :
    (xs.filter fun x => decide (segment x = .code)).length = (codeRows rows).length := by
  unfold codeRows
  rw [← List.countP_eq_length_filter, ← List.countP_eq_length_filter]
  have hcount := congrArg (List.countP fun s => decide (s = Segment.code)) h
  rw [List.countP_map, List.countP_map] at hcount
  exact hcount.symm

/-- The linked fragment of a row. -/
structure Row.Moved (labels : List Nat) (row : Row) (u : LinkedFragment) : Prop where
  segment : u.segment = row.segment
  label : u.label = row.label? labels
  source : u.source = row.body labels
  length : u.length = row.length
  length_code : u.code.length = row.length
  values : row.segment = .data → u.code = row.values

section Moved

variable {rows : List Row} {linked : List LinkedFragment}

theorem length_flatMap_code (h : List.Forall₂ (Row.Moved labels) rows linked) :
    ((linked.filter (·.isIn .code)).flatMap (·.code)).length = codeLength rows := by
  induction h with
  | nil => rfl
  | @cons row u rows linked hrow _ ih =>
    rw [codeLength_cons, ← hrow.segment, ← ih]
    by_cases hcode : u.segment = .code <;>
      simp [Fragment.isIn, hcode, hrow.length_code]

theorem flatMap_data (h : List.Forall₂ (Row.Moved labels) rows linked) :
    (linked.filter (·.isIn .data)).flatMap (·.code) = rows.flatMap Row.values := by
  induction h with
  | nil => rfl
  | @cons row u rows linked hrow _ ih =>
    rw [List.flatMap_cons, ← ih]
    cases row with
    | code address d =>
      have hcode : u.segment = .code := hrow.segment
      simp [Fragment.isIn, hcode, Row.values]
    | data address trytes =>
      have hdata : u.segment = .data := hrow.segment
      simp [Fragment.isIn, hdata, hrow.values rfl]

end Moved

/-- The program is the image with its code moved together and its data behind the code. -/
structure Compacts (image : Word) (p : Program) : Prop where
  size_eq : p.size = image.length
  /-- A row of code goes to where the rows of code before it end. -/
  code : ∀ before address d after, rows image = before ++ .code address d :: after →
    ∃ u, p.inOrder[(codeRows before).length]? = some u ∧ u.segment = .code ∧
      u.label = (Row.code address d).label? (labelAddresses image) ∧
      u.source = d.text (labelAddresses image) ∧ u.length = d.length ∧
      u.address = codeLength before
  count : (p.inOrder.filter (·.isIn .code)).length = (codeRows (rows image)).length
  data : p.image.drop (codeLength (rows image)) = (rows image).flatMap Row.values

section Programs

variable {p : Program} {base : Int64} {table : SymbolTable Nat} {fragments : List Fragment}
  (hprints : List.Forall₂ (Row.Prints image (labelAddresses image)) (pieces image) fragments)
  (hlinks : p.Links base table fragments)

include hprints hlinks

theorem forall₂_moved :
    List.Forall₂ (Row.Moved (labelAddresses image)) (pieces image) p.fragments := by
  have hall : List.Forall₂ (fun row u => Row.Prints image (labelAddresses image) row u.toFragment)
      (pieces image) p.fragments := by
    rw [← hlinks.map_toFragment] at hprints
    exact List.forall₂_map_right_iff.1 hprints
  refine Outcome.forall₂_imp_of_mem (fun row hrow u hu hprint => ?_) hall
  have hlength : u.length = row.length :=
    hprint.toAssembles.length ((tiles_pieces image).shows hrow)
  refine ⟨hprint.segment, hprint.label, hprint.source, hlength, ?_, fun hdata => ?_⟩
  · rw [hlinks.length_code hu]
    exact hlength
  · -- There is nothing to resolve in data.
    have hresolved := hlinks.resolved u hu
    rw [hprint.values hdata, List.forall₂_map_left_iff] at hresolved
    have hequal : List.Forall₂ Eq row.values u.code :=
      hresolved.imp fun _ _ ht => Except.ok.inj ht
    rw [List.forall₂_eq_eq_eq] at hequal
    exact hequal.symm

theorem map_segment_pieces :
    (pieces image).map Row.segment = p.fragments.map (·.segment) :=
  Outcome.map_eq_map_of_forall₂ ((forall₂_moved hprints hlinks).imp fun _ _ h => h.segment.symm)

theorem size_eq_length : p.size = image.length := by
  have hlengths : (pieces image).map Row.length = p.fragments.map (·.length) :=
    Outcome.map_eq_map_of_forall₂ ((forall₂_moved hprints hlinks).imp fun _ _ h => h.length.symm)
  have htotal := (tiles_pieces image).rowsLength_eq
  rw [Nat.zero_add] at htotal
  rw [← htotal, rowsLength, hlengths]
  unfold Program.size
  rw [List.length_flatMap]
  rfl

/-- The fragment of a row of code comes after those of the rows of code before it. -/
theorem exists_moved_code {before after : List Row} {address : Nat} {d : Decoded}
    (hrows : rows image = before ++ .code address d :: after) :
    ∃ u, p.inOrder[(codeRows before).length]? = some u ∧
      (Row.code address d).Moved (labelAddresses image) u ∧ u.address = codeLength before := by
  have hsplit : pieces image =
      before.flatMap Row.pieces ++ .code address d :: after.flatMap Row.pieces := by
    unfold pieces
    rw [hrows, List.flatMap_append, List.flatMap_cons]
    rfl
  have hk : (pieces image)[(before.flatMap Row.pieces).length]? = some (.code address d) := by
    rw [hsplit]
    simp
  have htake : (pieces image).take (before.flatMap Row.pieces).length =
      before.flatMap Row.pieces := by
    rw [hsplit]
    simp
  obtain ⟨u, hu, hrow⟩ := Outcome.forall₂_getElem? (forall₂_moved hprints hlinks) hk
  obtain ⟨f, hf, -, haddress, -⟩ := exists_placed_code hprints hk
  have hplaced : u.toPlacedFragment = f := by
    rw [← hlinks.placed, List.getElem?_map, hu] at hf
    exact Option.some.inj hf
  refine ⟨u, ?_, hrow, ?_⟩
  · -- Of the fragments before it, those of code are as many as the rows of code.
    have hbefore : (codeRows before).length =
        ((p.fragments.take (before.flatMap Row.pieces).length).filter (·.isIn .code)).length := by
      rw [← codeRows_pieces before]
      symm
      apply length_filter_code fun u : LinkedFragment => u.segment
      rw [List.map_take, ← map_segment_pieces hprints hlinks, ← List.map_take, htake]
    rw [hbefore]
    exact getElem?_filter_append hu (decide_eq_true hrow.segment) _
  · rw [hplaced, haddress, htake, codeLength, codeRows_pieces]
    rfl

theorem compacts_of_links : Compacts image p := by
  have hmoved := forall₂_moved hprints hlinks
  refine ⟨size_eq_length hprints hlinks, fun before address d after hrows => ?_, ?_, ?_⟩
  · obtain ⟨u, hu, hrow, haddress⟩ := exists_moved_code hprints hlinks hrows
    exact ⟨u, hu, hrow.segment, hrow.label, hrow.source, hrow.length, haddress⟩
  · rw [p.filter_inOrder, ← codeRows_pieces]
    exact length_filter_code (fun u : LinkedFragment => u.segment)
      (map_segment_pieces hprints hlinks)
  · have hcode : codeLength (rows image) = codeLength (pieces image) := by
      unfold codeLength pieces
      rw [codeRows_pieces]
    unfold Program.image Program.inOrder
    rw [List.flatMap_append, hcode, ← length_flatMap_code hmoved, List.drop_left,
      flatMap_data hmoved]
    exact flatMap_values_pieces _

end Programs

/-! ## Faults -/

section Faults

variable {symbols : SymbolTable Nat} {position : Nat}

theorem exists_declare {label? : Option Label} (h : ∀ l ∈ label?, symbols.lookup? l = none)
    (position : Nat) : ∃ table, declare symbols position label? = .ok table := by
  cases label? with
  | none => exact ⟨symbols, rfl⟩
  | some l => exact ⟨_, SymbolTable.define_of_fresh (h l rfl)⟩

/-- A row is read, or its first argument is a register that is not known. -/
theorem Row.Says.fault_of_read {row : Row} {s : Statement} (h : row.Says labels s)
    (hshows : row.Shows image) (hfresh : ∀ l ∈ row.label? labels, symbols.lookup? l = none)
    {fault : Fault} (hread : Fragment.read symbols position s = .error fault) :
    fault = Argument.unknownRegister := by
  obtain ⟨table, htable⟩ := exists_declare hfresh position
  by_cases hknown : row.Known
  · obtain ⟨f, hyields, hassembles⟩ := h.exists_yields hshows hknown
    rw [← hassembles.label] at htable
    rw [read_eq_ok_iff.2 ⟨hyields, htable⟩] at hread
    exact nomatch hread
  · cases row with
    | data address trytes => exact absurd trivial hknown
    | code address d =>
      have homits : d.family.omitsFirst d.modes := not_not.1 hknown
      have hempty : (d.text labels).isEmpty = false :=
        List.isEmpty_eq_false_iff.2 (hshows.body labels).ne_nil
      have hencode : s.encode ((Row.code address d).label? labels) (d.text labels) =
          .error Argument.unknownRegister := by
        rw [Statement.encode_eq]
        unfold Statement.assemble
        rw [show s.segment = .code from h.1]
        dsimp only
        rw [hempty, assemble_text_unknown hshows homits]
        rfl
      unfold Fragment.read at hread
      rw [h.2] at hread
      change (declare symbols position _ >>= fun symbols => s.encode _ (d.text labels) >>= _) = _
        at hread
      rw [htable, hencode] at hread
      exact (Except.error.inj hread).symm

theorem fault_of_readFrom {pieces : List Row} {found : List Statement}
    (hsaid : List.Forall₂ (Row.Says labels) pieces found)
    (hshows : ∀ row ∈ pieces, row.Shows image)
    (hnodup : (pieces.filterMap (Row.label? labels)).Nodup)
    (hfresh : ∀ l ∈ pieces.filterMap (Row.label? labels), symbols.lookup? l = none)
    {e : LineFault} (h : Fragment.readFrom symbols position found = .error e) :
    e.fault = Argument.unknownRegister := by
  induction hsaid generalizing symbols position with
  | nil => exact nomatch h
  | @cons row s pieces found hrow _ ih =>
    rw [List.forall_mem_cons] at hshows
    have hlabel : ∀ l ∈ row.label? labels, symbols.lookup? l = none := by
      intro l hl
      apply hfresh l
      rw [List.filterMap_cons_some hl]
      exact List.mem_cons_self
    unfold Fragment.readFrom at h
    split at h
    · rename_i fault hread
      rw [← Except.error.inj h]
      exact hrow.fault_of_read hshows.1 hlabel hread
    · rename_i symbols' f hread
      obtain ⟨hyields, hdeclare⟩ := read_eq_ok_iff.1 hread
      rw [(hrow.prints hshows.1 hyields).label] at hdeclare
      have hrest : Fragment.readFrom symbols' (position + 1) found = .error e := by
        cases hlater : Fragment.readFrom symbols' (position + 1) found with
        | error e' =>
          rw [hlater] at h
          rw [Except.error.inj h]
        | ok r =>
          rw [hlater] at h
          exact nomatch h
      -- The label of the row, if it has one, is not among those that are still to come.
      cases hname : row.label? labels with
      | none =>
        rw [List.filterMap_cons_none hname] at hnodup hfresh
        rw [hname] at hdeclare
        rw [← Except.ok.inj hdeclare] at hrest
        exact ih hshows.2 hnodup hfresh hrest
      | some l =>
        rw [List.filterMap_cons_some hname] at hnodup hfresh
        rw [List.nodup_cons] at hnodup
        refine ih hshows.2 hnodup.2 (fun m hm => ?_) hrest
        rw [lookup?_of_declare hdeclare, hname, if_neg]
        · exact hfresh m (List.mem_cons_of_mem _ hm)
        · rintro hlm
          rw [Option.some.inj hlm] at hnodup
          exact hnodup.1 hm

end Faults

/-! ## Every disassembly -/

/-- Among the formats with these modes there is none that has a place for all the registers. -/
theorem Recognised.omitsFirst_iff_modes {address : Nat} {trytes : Word} {d : Decoded}
    {format : Format} {c : Capture} (h : Recognised address trytes d format c) :
    d.family.omitsFirst d.modes ↔ d.modes = [.register, .immediate, .indirect] := by
  have htable : ∀ family ∈ Family.all, ∀ format ∈ family.formats,
      format.modes = [.register, .immediate, .indirect] → family = .add ∨ family = .bitwise := by
    decide
  refine ⟨And.right, fun hmodes => ⟨?_, hmodes⟩⟩
  exact htable d.family d.family.mem_all format h.mem (h.modes ▸ hmodes)

theorem known_iff (image : Word) :
    (∀ row ∈ pieces image, row.Known) ↔ ∀ address d, Row.code address d ∈ rows image →
      d.modes ≠ [.register, .immediate, .indirect] := by
  have hrow {address : Nat} {d : Decoded} (h : Row.code address d ∈ rows image) :
      (Row.code address d).Known ↔ d.modes ≠ [.register, .immediate, .indirect] := by
    obtain ⟨format, c, hd⟩ := exists_recognised ((tiles_rows image).shows h)
    exact not_congr hd.omitsFirst_iff_modes
  constructor
  · intro h address d hd
    exact (hrow hd).1 (h _ (Row.code_mem_pieces.2 hd))
  · intro h
    exact forall_pieces (fun _ _ => trivial) fun address d hd => (hrow hd).2 (h address d hd)

theorem exists_assemble_of_known (hknown : ∀ row ∈ pieces image, row.Known) (base : Int64) :
    ∃ p, assemble ⟨[';'], base⟩ (disassemble image) = .ok p := by
  obtain ⟨table, fragments, hread, htable, -⟩ := exists_readAll hknown
  have hprints := forall₂_prints (readFrom_eq_ok_iff.1 hread).1
  obtain ⟨p, hlinks⟩ := exists_links_disassemble hprints htable base
  exact ⟨p, assemble_eq_ok_iff.2 ⟨table, fragments, hread, hlinks⟩⟩

theorem fault_of_assemble {base : Int64} {e : LineFault}
    (h : assemble ⟨[';'], base⟩ (disassemble image) = .error e) :
    e.fault = Argument.unknownRegister := by
  have htiles := tiles_pieces image
  cases hread : Fragment.readAll (statements [';'] (disassemble image)) with
  | error e' =>
    unfold assemble at h
    rw [hread] at h
    rw [← Except.error.inj h]
    exact fault_of_readFrom (says_disassemble image) (fun _ => htiles.shows)
      (nodup_label? htiles _) (fun _ _ => rfl) hread
  | ok r =>
    -- All statements were read, so all registers are known and the text assembles.
    have hknown := known_of_yields (readFrom_eq_ok_iff.1 hread).1
    obtain ⟨p, hp⟩ := exists_assemble_of_known hknown base
    rw [hp] at h
    exact nomatch h

/-- The text of any disassembly assembles exactly when no instruction in it has the one shape that
leaves a register out. Then the code has moved together and the data follows it, and otherwise the
fault is about such a register, never about a label. -/
theorem assemble_disassemble_compacts (image : Word) (base : Int64) :
    ((∃ p, assemble ⟨[';'], base⟩ (disassemble image) = .ok p) ↔
      ∀ address d, Row.code address d ∈ rows image →
        d.modes ≠ [.register, .immediate, .indirect]) ∧
    (∀ p, assemble ⟨[';'], base⟩ (disassemble image) = .ok p → Compacts image p) ∧
    ∀ e, assemble ⟨[';'], base⟩ (disassemble image) = .error e →
      e.fault = Argument.unknownRegister := by
  refine ⟨?_, fun p hp => ?_, fun e he => fault_of_assemble he⟩
  · rw [← known_iff]
    exact ⟨fun ⟨p, hp⟩ => known_of_assemble hp, fun h => exists_assemble_of_known h base⟩
  · obtain ⟨table, fragments, hread, hlinks⟩ := assemble_eq_ok_iff.1 hp
    exact compacts_of_links (forall₂_prints (readFrom_eq_ok_iff.1 hread).1) hlinks

/-- A jump over two trytes of data to the end of the program. -/
def jumpOver : Word :=
  ([80, 9, 0, 2, 5, -7, -334, 243, -27] : List Int).flatMap fun v =>
    Word.ofTrits (Trit.expand 6 v)

/-- The second instruction moves up to the first one, and the data goes to the end. -/
theorem jumpOver_compacts :
    ∃ p, assemble .default (disassemble jumpOver) = .ok p ∧ p.size = 9 ∧
      (∃ u, p.inOrder[1]? = some u ∧ u.source = "restart".toList ∧ u.address = 4) ∧
      (p.image.drop 7).map Tryte.toInt = [5, -7] := by
  have hreached : reached (decoded jumpOver) =
      #[true, false, false, false, false, false, true, false, false] := by
    have hjump : successors? (decoded jumpOver) 0 = some [6] := by decide +kernel
    have hrestart : successors? (decoded jumpOver) 6 = some [] := by decide +kernel
    have hsize : (decoded jumpOver).size = 9 := by decide +kernel
    unfold reached
    rw [hsize, explore_of_unmarked (by decide) (by decide) hjump]
    rw [List.append_nil, explore_of_unmarked (by decide) (by decide) hrestart]
    rw [List.append_nil, explore]
    decide
  have hrows : rows jumpOver =
      [.code 0 ⟨.jump, "jmp", [⟨false, .branch 2 6⟩], 4⟩, .data 4 ((jumpOver.drop 4).take 2)] ++
        [.code 6 ⟨.restart, "restart", [], 3⟩] := by
    rw [rows, cells_eq, instructions, hreached]
    decide +kernel
  obtain ⟨hiff, hcompacts, -⟩ := assemble_disassemble_compacts jumpOver (-364)
  obtain ⟨p, hp⟩ : ∃ p, assemble .default (disassemble jumpOver) = .ok p := by
    apply hiff.2
    intro address d hrow
    rw [hrows] at hrow
    simp only [List.mem_append, List.mem_cons, List.not_mem_nil, or_false, Row.code.injEq,
      reduceCtorEq] at hrow
    obtain ⟨-, rfl⟩ | ⟨-, rfl⟩ := hrow <;> decide
  have hmoved := hcompacts p hp
  obtain ⟨u, hu, -, -, hsource, -, haddress⟩ := hmoved.code _ _ _ [] hrows
  have hdata := hmoved.data
  rw [hrows] at hdata
  refine ⟨p, hp, hmoved.size_eq, ⟨u, hu, hsource, haddress⟩, ?_⟩
  rw [show p.image.drop 7 = _ from hdata]
  decide +kernel

end BalancedTernary.Disassembly
