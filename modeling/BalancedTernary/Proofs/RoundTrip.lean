import BalancedTernary.Proofs.Fragments
import BalancedTernary.Proofs.Linking
import BalancedTernary.Proofs.Tiling

/-!
# Assembling a disassembly

Where all code comes before all data, every printed row goes back to its own address, so each label
means the same distance again. The image comes back unless a register was left out or a padding was
not zero.
-/

namespace BalancedTernary.Disassembly

open Assembly

variable {image : Word} {labels : List Nat}

/-! ## Rows and fragments -/

/-- The text of the row names all its registers. -/
def Row.Known : Row → Prop
  | code _ d => ¬ d.family.omitsFirst d.modes
  | data _ _ => True

/-- The trytes of the row with the padding, if there is one, set to zero. -/
def Row.canonical (image : Word) : Row → Word
  | code address d => d.canonical ((image.drop address).take d.length)
  | data address trytes => (image.drop address).take trytes.length

/-- `f` is the fragment of the row. -/
structure Row.Assembles (image : Word) (labels : List Nat) (row : Row) (f : Fragment) : Prop where
  segment : f.segment = row.segment
  label : f.label = row.label? labels
  trytes : List.Forall₂ (Restores labels row.stop) f.trytes (row.canonical image)

namespace Row

theorem Shows.length_canonical {row : Row} (h : row.Shows image) :
    (row.canonical image).length = row.length := by
  rw [← h.length_trytes]
  cases row with
  | code address d => exact d.length_canonical _
  | data address trytes => rfl

theorem Assembles.length {row : Row} {f : Fragment} (h : row.Assembles image labels f)
    (hshows : row.Shows image) : f.length = row.length := by
  rw [← hshows.length_canonical]
  exact h.trytes.length_eq

theorem Shows.exists_assemble {row : Row} (h : row.Shows image) (hknown : row.Known)
    {s : Statement} (hsegment : s.segment = row.segment) (label : Option Label) :
    ∃ slots, s.assemble label (row.body labels) = .ok slots ∧
      List.Forall₂ (Restores labels row.stop) slots (row.canonical image) := by
  cases row with
  | code address d =>
    obtain ⟨slots, hslots, hrestores⟩ := assemble_text h hknown labels
    exact ⟨slots, (Statement.assemble_of_code hsegment).2 ⟨(h.body labels).ne_nil, hslots⟩,
      hrestores⟩
  | data address trytes =>
    refine ⟨trytes.map .tryte, ?_, ?_⟩
    · rw [Statement.assemble_of_data hsegment]
      exact assemble_dataText h.1
    · change List.Forall₂ _ _ ((image.drop address).take trytes.length)
      rw [h.2]
      exact List.forall₂_map_left_iff.2 (List.forall₂_same.2 fun _ _ => rfl)

/-- A row whose registers are all known has a fragment. -/
theorem Says.exists_yields {row : Row} {s : Statement} (h : row.Says labels s)
    (hshows : row.Shows image) (hknown : row.Known) :
    ∃ f, s.Yields f ∧ row.Assembles image labels f := by
  obtain ⟨hsegment, hsplit⟩ := h
  obtain ⟨slots, hslots, hrestores⟩ :=
    hshows.exists_assemble hknown hsegment (row.label? labels)
  exact ⟨_, ⟨_, _, hsplit, Statement.encode_eq_ok_iff.2 ⟨slots, hslots, rfl⟩⟩,
    hsegment, rfl, hrestores⟩

/-- No other row has one. -/
theorem Says.known {row : Row} {s : Statement} {f : Fragment} (h : row.Says labels s)
    (hshows : row.Shows image) (hf : s.Yields f) : row.Known := by
  obtain ⟨hsegment, hsplit⟩ := h
  obtain ⟨label, body, hsplit', hencode⟩ := hf
  obtain ⟨rfl, rfl⟩ := Prod.mk.inj (Except.ok.inj (hsplit.symm.trans hsplit'))
  obtain ⟨slots, hslots, -⟩ := Statement.encode_eq_ok_iff.1 hencode
  cases row with
  | code address d =>
    exact not_omitsFirst_of_assemble hshows ((Statement.assemble_of_code hsegment).1 hslots).2
  | data address trytes => exact trivial

end Row

/-! ## Addresses -/

/-- No row of code comes after a row of data. -/
def CodeFirst (rows : List Row) : Prop :=
  rows.Pairwise fun r s => r.segment = .data → s.segment = .data

instance : DecidablePred CodeFirst := fun _ => inferInstanceAs (Decidable (List.Pairwise _ _))

theorem CodeFirst.pieces {rows : List Row} (h : CodeFirst rows) :
    CodeFirst (rows.flatMap Row.pieces) := by
  -- The pieces of a row have its segment, within the row and against later rows.
  refine List.pairwise_flatMap.2 ⟨fun row _ => ?_, h.imp ?_⟩
  · apply List.pairwise_of_forall_mem_list
    intro r hr s hs hdata
    rw [Row.segment_of_mem_pieces hr] at hdata
    rw [Row.segment_of_mem_pieces hs, hdata]
  · intro row row' hrow r hr s hs hdata
    rw [Row.segment_of_mem_pieces hr] at hdata
    rw [Row.segment_of_mem_pieces hs, hrow hdata]

theorem CodeFirst.of_segments {α : Type} {segment : α → Segment} {rows : List Row} {xs : List α}
    (h : CodeFirst rows) (hsegments : rows.map Row.segment = xs.map segment) :
    xs.Pairwise fun x y => segment x = .data → segment y = .data := by
  have hpairwise : (rows.map Row.segment).Pairwise fun s t => s = .data → t = .data :=
    List.pairwise_map.2 h
  rw [hsegments] at hpairwise
  exact List.pairwise_map.1 hpairwise

/-- Fragments as long as the rows, placed like the rows, have their addresses. -/
theorem Tiles.addresses {start : Nat} {pieces : List Row} {placed : List PlacedFragment}
    (htiles : Tiles image start pieces) (hplaced : Contiguous start placed)
    (hall : List.Forall₂ (fun row f => Row.Assembles image labels row f.toFragment)
      pieces placed) :
    List.Forall₂ (fun row f => Row.Assembles image labels row f.toFragment ∧
      f.address = row.address) pieces placed := by
  induction hall generalizing start with
  | nil => exact .nil
  | cons hrow _ ih =>
    obtain ⟨haddress, hshows, htiles⟩ := htiles
    obtain ⟨hstart, hplaced⟩ := hplaced
    refine .cons ⟨hrow, hstart.trans haddress.symm⟩ (ih htiles ?_)
    rw [← hrow.length hshows]
    exact hplaced

/-- A slot becomes the tryte of the row again when the labels are back at their addresses. -/
theorem Restores.resolve {symbols : Symbols} {base : Int64} {f : PlacedFragment}
    {slot : Relocatable} {t : Tryte} (h : Restores labels f.stop slot t)
    (hlabels : ∀ target ∈ labels, symbols.address? (labelName target) = some target) :
    f.resolve symbols base slot = .ok t := by
  cases slot with
  | tryte s => exact congrArg Except.ok h
  | address label => exact h.elim
  | displacement label =>
    obtain ⟨target, htarget, rfl, ht⟩ := h
    -- The distance fits into a tryte, so it is exact even where addresses wrap around.
    have hbounds := t.toInt_bounds
    unfold PlacedFragment.resolve
    dsimp only
    rw [hlabels target htarget]
    dsimp only
    rw [referenceTryte_eq_ok_iff, ht, toInt_ofNat_sub_ofNat] <;> omega

/-! ## Labels -/

section Labels

variable {pieces : List Row} {fragments : List Fragment}

theorem filterMap_label
    (hall : List.Forall₂ (Row.Assembles image labels) pieces fragments) :
    fragments.filterMap Fragment.label = pieces.filterMap (Row.label? labels) := by
  induction hall with
  | nil => rfl
  | cons hrow _ ih => rw [List.filterMap_cons, List.filterMap_cons, hrow.label, ih]

/-- Rows at different addresses have different labels. -/
theorem nodup_label? {start : Nat} (htiles : Tiles image start pieces) (labels : List Nat) :
    (pieces.filterMap (Row.label? labels)).Nodup := by
  have hname {row : Row} {l : Label} (h : row.label? labels = some l) :
      l = labelName row.address := by
    cases row with
    | code address d =>
      change (if address ∈ labels then some (labelName address) else none) = some l at h
      split at h
      · exact (Option.some.inj h).symm
      · exact nomatch h
    | data address trytes => exact nomatch h
  refine List.pairwise_filterMap.2 (htiles.pairwise_address.imp ?_)
  intro r s hlt l hl m hm heq
  rw [hname hl, hname hm] at heq
  exact absurd (labelName_injective heq) (Nat.ne_of_lt hlt)

/-- Each label is at the address in its name. -/
theorem address?_labelName {table : SymbolTable Nat}
    (hall : List.Forall₂ (fun row f => Row.Assembles image labels row f.toFragment ∧
      f.address = row.address) pieces (place fragments))
    (htable : declareFrom .empty 0 fragments = .ok table) {target : Nat} {d : Decoded}
    (htarget : target ∈ labels) (hrow : Row.code target d ∈ pieces) :
    Symbols.address? ⟨table, place fragments⟩ (labelName target) = some target := by
  obtain ⟨k, hk⟩ := List.mem_iff_getElem?.1 hrow
  obtain ⟨f, hf, hassembles, haddress⟩ := Outcome.forall₂_getElem? hall hk
  have hfragment : fragments[k]? = some f.toFragment := by
    rw [← toFragment_place fragments, List.getElem?_map, hf]
    rfl
  have hlabel : f.label = some (labelName target) := hassembles.label.trans (if_pos htarget)
  rw [address?_of_declareFrom htable hf hfragment hlabel, haddress]
  rfl

end Labels

/-! ## Programs -/

/-- The pieces of the disassembly of an image. -/
def pieces (image : Word) : List Row := (rows image).flatMap Row.pieces

theorem tiles_pieces (image : Word) : Tiles image 0 (pieces image) := (tiles_rows image).pieces

/-- The fragments that the statements of a disassembly are read as. -/
theorem exists_readAll (hknown : ∀ row ∈ pieces image, row.Known) :
    ∃ table fragments,
      Fragment.readAll (statements [';'] (disassemble image)) = .ok (table, fragments) ∧
        declareFrom .empty 0 fragments = .ok table ∧
        List.Forall₂ (Row.Assembles image (labelAddresses image)) (pieces image) fragments := by
  have htiles := tiles_pieces image
  obtain ⟨fragments, hyields, hall⟩ := Outcome.exists_forall₂ (says_disassemble image)
    fun row hrow s hsays => hsays.exists_yields (htiles.shows hrow) (hknown row hrow)
  have hfresh : ∀ l ∈ fragments.filterMap Fragment.label,
      SymbolTable.empty.lookup? l = (none : Option Nat) := fun _ _ => rfl
  have hnodup : (fragments.filterMap Fragment.label).Nodup := by
    rw [filterMap_label hall]
    exact nodup_label? htiles (labelAddresses image)
  obtain ⟨table, htable⟩ := exists_declareFrom hfresh hnodup 0
  exact ⟨table, fragments, readFrom_eq_ok_iff.2 ⟨hyields, htable⟩, htable, hall⟩

/-- Fragments of rows with the code first are placed at the addresses of the rows. -/
theorem forall₂_place {fragments : List Fragment} (hfirst : CodeFirst (pieces image))
    (hall : List.Forall₂ (Row.Assembles image labels) (pieces image) fragments) :
    List.Forall₂ (fun row f => Row.Assembles image labels row f.toFragment ∧
      f.address = row.address) (pieces image) (place fragments) := by
  have hplaced : List.Forall₂ (fun row f => Row.Assembles image labels row f.toFragment)
      (pieces image) (place fragments) := by
    rw [← List.forall₂_map_right_iff, toFragment_place]
    exact hall
  have hsegments : (pieces image).map Row.segment = (place fragments).map (·.segment) :=
    Outcome.map_eq_map_of_forall₂ (hplaced.imp fun _ _ h => h.segment.symm)
  -- With the code first, the order of addresses is the order of the text.
  have harrange : arrange (place fragments) = place fragments :=
    filter_code_append_filter_data (hfirst.of_segments hsegments)
  refine (tiles_pieces image).addresses ?_ hplaced
  rw [← harrange]
  exact contiguous_place fragments

/-- Each fragment is linked to the canonical trytes of its row. -/
theorem exists_linked {fragments : List Fragment} {table : SymbolTable Nat}
    (htable : declareFrom .empty 0 fragments = .ok table) (base : Int64)
    (hall : List.Forall₂ (fun row f => Row.Assembles image (labelAddresses image) row f.toFragment ∧
      f.address = row.address) (pieces image) (place fragments)) :
    ∃ linked, List.Forall₂ (fun f l => PlacedFragment.link ⟨table, place fragments⟩ base f = .ok l)
        (place fragments) linked ∧
      List.Forall₂ (fun row l => Row.canonical image row = l.code ∧
        Row.segment row = l.segment) (pieces image) linked := by
  have hlabels : ∀ target ∈ labelAddresses image,
      Symbols.address? ⟨table, place fragments⟩ (labelName target) = some target := by
    intro target htarget
    obtain ⟨d, hd⟩ := exists_code_of_mem_labelAddresses htarget
    exact address?_labelName hall htable htarget (Row.code_mem_pieces.2 hd)
  refine Outcome.exists_forall₂ hall fun row hrow f hf => ?_
  have hshows := (tiles_pieces image).shows hrow
  have hstop : f.stop = row.stop := by
    unfold PlacedFragment.stop Row.stop
    rw [hf.2, hf.1.length hshows]
  refine ⟨⟨f, row.canonical image⟩, PlacedFragment.link_eq_ok_iff.2 ⟨rfl, ?_⟩, rfl,
    hf.1.segment.symm⟩
  refine hf.1.trytes.imp fun slot t hslot => ?_
  rw [← hstop] at hslot
  exact hslot.resolve hlabels

/-- With the code first and all registers known, a disassembly assembles to the canonical trytes of
its rows. -/
theorem exists_assemble (hfirst : CodeFirst (rows image))
    (hknown : ∀ row ∈ pieces image, row.Known) (base : Int64) :
    ∃ p, assemble ⟨[';'], base⟩ (disassemble image) = .ok p ∧
      p.image = (pieces image).flatMap (Row.canonical image) := by
  obtain ⟨table, fragments, hread, htable, hall⟩ := exists_readAll hknown
  obtain ⟨linked, hlink, hcode⟩ :=
    exists_linked htable base (forall₂_place hfirst.pieces hall)
  obtain ⟨hplaced, hresolved⟩ := forall₂_link_iff.1 hlink
  refine ⟨⟨linked, table, base⟩,
    assemble_eq_ok_iff.2 ⟨table, fragments, hread, rfl, rfl, hplaced, hresolved⟩, ?_⟩
  have hsegments : (pieces image).map Row.segment = linked.map (·.segment) :=
    Outcome.map_eq_map_of_forall₂ (hcode.imp fun _ _ h => h.2)
  have horder : Program.inOrder ⟨linked, table, base⟩ = linked :=
    filter_code_append_filter_data (hfirst.pieces.of_segments hsegments)
  have hcodes : (pieces image).map (Row.canonical image) = linked.map (·.code) :=
    Outcome.map_eq_map_of_forall₂ (hcode.imp fun _ _ h => h.1)
  rw [Program.image, horder, List.flatMap_def, List.flatMap_def, hcodes]

/-- The rows that can be read are all of them. -/
theorem known_of_yields {fragments : List Fragment}
    (h : List.Forall₂ Statement.Yields (statements [';'] (disassemble image)) fragments) :
    ∀ row ∈ pieces image, row.Known := by
  intro row hrow
  obtain ⟨s, hs, hsays⟩ := Outcome.exists_of_mem_left (says_disassemble image) hrow
  obtain ⟨f, -, hf⟩ := Outcome.exists_of_mem_left h hs
  exact hsays.known ((tiles_pieces image).shows hrow) hf

theorem known_of_assemble {base : Int64} {p : Program}
    (h : assemble ⟨[';'], base⟩ (disassemble image) = .ok p) :
    ∀ row ∈ pieces image, row.Known := by
  obtain ⟨table, fragments, hread, -⟩ := assemble_eq_ok_iff.1 h
  exact known_of_yields (readFrom_eq_ok_iff.1 hread).1

/-- The padding of the row, if there is one, is zero. -/
def Row.PadsZero (image : Word) : Row → Prop
  | code address d => d.family.pads d.modes → image[address + 3]? = some .zero
  | data _ _ => True

theorem Row.Shows.canonical_eq_iff {row : Row} (h : row.Shows image) :
    row.canonical image = row.trytes image ↔ row.PadsZero image := by
  cases row with
  | code address d =>
    obtain ⟨format, c, hd⟩ := exists_recognised h
    have hiff := hd.canonical_eq_self_iff
    rw [List.getElem?_drop] at hiff
    exact hiff
  | data address trytes => exact ⟨fun _ => trivial, fun _ => rfl⟩

/-- What holds of every instruction holds of every row. -/
theorem forall_pieces {P : Row → Prop} (hdata : ∀ address trytes, P (.data address trytes))
    (hcode : ∀ address d, Row.code address d ∈ rows image → P (.code address d)) :
    ∀ row ∈ pieces image, P row := by
  intro row hrow
  cases row with
  | code address d => exact hcode address d (Row.code_mem_pieces.1 hrow)
  | data address trytes => exact hdata address trytes

theorem flatMap_eq_flatMap_iff {α β : Type} {f g : α → List β} {xs : List α}
    (h : ∀ x ∈ xs, (f x).length = (g x).length) :
    xs.flatMap f = xs.flatMap g ↔ ∀ x ∈ xs, f x = g x := by
  induction xs with
  | nil => exact ⟨fun _ _ hx => (nomatch hx), fun _ => rfl⟩
  | cons x xs ih =>
    rw [List.forall_mem_cons] at h
    rw [List.flatMap_cons, List.flatMap_cons, List.forall_mem_cons, ← ih h.2]
    constructor
    · intro heq
      exact List.append_inj heq h.1
    · rintro ⟨hx, hxs⟩
      rw [hx, hxs]

/-- The image comes back exactly when no padding is lost. -/
theorem flatMap_canonical_eq_iff (image : Word) :
    (pieces image).flatMap (Row.canonical image) = image ↔
      ∀ row ∈ pieces image, row.PadsZero image := by
  have htiles := tiles_pieces image
  have himage : (pieces image).flatMap (Row.trytes image) = image := htiles.flatMap_trytes
  conv_lhs =>
    rhs
    rw [← himage]
  rw [flatMap_eq_flatMap_iff]
  · exact forall₂_congr fun row hrow => (htiles.shows hrow).canonical_eq_iff
  · intro row hrow
    rw [(htiles.shows hrow).length_canonical, (htiles.shows hrow).length_trytes]

/-- A disassembly in which all code comes before all data assembles to the image that it is of,
exactly when it names every register and the image has no padding other than zero. The one kind of
format that leaves a register out is the one whose text has an unknown register. -/
theorem assemble_disassemble_iff (image : Word) (base : Int64) (hfirst : CodeFirst (rows image)) :
    ((∃ p, assemble ⟨[';'], base⟩ (disassemble image) = .ok p ∧ p.image = image) ↔
      ∀ address d, Row.code address d ∈ rows image →
        ¬ d.family.omitsFirst d.modes ∧
          (d.family.pads d.modes → image[address + 3]? = some .zero)) ∧
    ∀ address d, Row.code address d ∈ rows image →
      (d.family.omitsFirst d.modes ↔ ∃ a ∈ d.arguments, a.value = .unknown) := by
  refine ⟨⟨?_, ?_⟩, ?_⟩
  · rintro ⟨p, hp, himage⟩ address d hrow
    have hpiece := Row.code_mem_pieces.2 hrow
    have hknown := known_of_assemble hp
    -- Assembling has one answer, so the program is the one that is known to be canonical.
    obtain ⟨p', hp', hcanonical⟩ := exists_assemble hfirst hknown base
    rw [Except.ok.inj (hp'.symm.trans hp), himage] at hcanonical
    exact ⟨hknown _ hpiece, (flatMap_canonical_eq_iff image).1 hcanonical.symm _ hpiece⟩
  · intro h
    have hknown : ∀ row ∈ pieces image, row.Known :=
      forall_pieces (fun _ _ => trivial) fun address d hrow => (h address d hrow).1
    have hpads : ∀ row ∈ pieces image, row.PadsZero image :=
      forall_pieces (fun _ _ => trivial) fun address d hrow => (h address d hrow).2
    obtain ⟨p, hp, himage⟩ := exists_assemble hfirst hknown base
    exact ⟨p, hp, himage.trans ((flatMap_canonical_eq_iff image).2 hpads)⟩
  · intro address d hrow
    obtain ⟨format, c, hd⟩ := exists_recognised ((tiles_rows image).shows hrow)
    exact hd.omitsFirst_iff

/-- A store with a padding, a jump back to it and two trytes of data. -/
def storeLoop : Word :=
  ([242, 0, 1, 0, 5, 80, 9, 0, -9, 1, -2] : List Int).flatMap fun v =>
    Word.ofTrits (Trit.expand 6 v)

theorem storeLoop_roundTrip :
    CodeFirst (rows storeLoop) ∧
      ∃ p, assemble .default (disassemble storeLoop) = .ok p ∧ p.image = storeLoop := by
  have hreached : reached (decoded storeLoop) =
      #[true, false, false, false, false, true, false, false, false, false, false] := by
    have hstore : successors? (decoded storeLoop) 0 = some [5] := by decide +kernel
    have hjump : successors? (decoded storeLoop) 5 = some [0] := by decide +kernel
    have hsize : (decoded storeLoop).size = 11 := by decide +kernel
    unfold reached
    rw [hsize, explore_of_unmarked (by decide) (by decide) hstore]
    rw [List.append_nil, explore_of_unmarked (by decide) (by decide) hjump]
    rw [List.append_nil, explore_of_marked (by decide) (by decide), explore]
    decide
  have hrows : rows storeLoop =
      [.code 0 ⟨.move, "mov", [⟨false, .immediate 5⟩, ⟨true, .register .zero⟩], 5⟩,
       .code 5 ⟨.jump, "jmp", [⟨false, .branch (-9) 0⟩], 4⟩,
       .data 9 (storeLoop.drop 9)] := by
    rw [rows, cells_eq, instructions, hreached]
    decide +kernel
  have hfirst : CodeFirst (rows storeLoop) := by
    rw [hrows]
    decide
  refine ⟨hfirst, (assemble_disassemble_iff storeLoop (-364) hfirst).1.2 ?_⟩
  intro address d hrow
  rw [hrows] at hrow
  obtain h | h | h := List.mem_cons.1 hrow |>.imp_right List.mem_cons.1
  · obtain ⟨rfl, rfl⟩ := Row.code.inj h
    exact ⟨by decide, fun _ => by decide⟩
  · obtain ⟨rfl, rfl⟩ := Row.code.inj h
    exact ⟨by decide, fun h => absurd h (by decide)⟩
  · exact Row.noConfusion (List.eq_of_mem_singleton h)

end BalancedTernary.Disassembly
