import BalancedTernary.Proofs.Symbols

/-!
# Relocation

The base address of a program is added to the references to addresses and to nothing else. So a
program that is assembled again with another base has the same fragments at the same places, and its
image differs only where an address stands, by as much as the bases differ.
-/

namespace BalancedTernary.Assembly

/-! ## One tryte -/

section Resolve

variable {symbols : Symbols} {b c : Int64} {f : PlacedFragment} {slot : Relocatable}

theorem resolve_of_not_address (h : ∀ l, slot ≠ .address l) :
    f.resolve symbols c slot = f.resolve symbols b slot := by
  cases slot with
  | tryte t => rfl
  | address l => exact absurd rfl (h l)
  | displacement l => rfl

theorem exists_target_of_resolve {l : Label} {t : Tryte}
    (ht : f.resolve symbols b (.address l) = .ok t) :
    ∃ a, symbols.address? l = some a ∧ t.toInt = (Int64.ofNat a + b).toInt := by
  unfold PlacedFragment.resolve at ht
  dsimp only at ht
  split at ht
  · exact nomatch ht
  · rename_i target htarget
    exact ⟨target, htarget, referenceTryte_eq_ok_iff.1 ht⟩

/-- An address moves by as much as the base, in the arithmetic of the machine. -/
theorem ofInt_sub_of_resolve {l : Label} {s t : Tryte}
    (hs : f.resolve symbols b (.address l) = .ok s)
    (ht : f.resolve symbols c (.address l) = .ok t) :
    Int64.ofInt t.toInt - Int64.ofInt s.toInt = c - b := by
  obtain ⟨a, ha, hs⟩ := exists_target_of_resolve hs
  obtain ⟨a', ha', ht⟩ := exists_target_of_resolve ht
  obtain rfl : a = a' := Option.some.inj (ha.symm.trans ha')
  rw [hs, ht, Int64.ofInt_toInt, Int64.ofInt_toInt]
  grind

/-- The integers differ by exactly as much when the address is not out of all proportion. -/
theorem toInt_sub_of_resolve {l : Label} {s t : Tryte}
    (hs : f.resolve symbols b (.address l) = .ok s)
    (ht : f.resolve symbols c (.address l) = .ok t)
    (hsmall : ∀ a, symbols.address? l = some a → a < 2 ^ 62) :
    t.toInt - s.toInt = c.toInt - b.toInt := by
  obtain ⟨a, ha, hs⟩ := exists_target_of_resolve hs
  obtain ⟨a', ha', ht⟩ := exists_target_of_resolve ht
  obtain rfl : a = a' := Option.some.inj (ha.symm.trans ha')
  have hsb := s.toInt_bounds
  have htb := t.toInt_bounds
  have hs' := toInt_add_of_small (hsmall a ha) (hs ▸ hsb.1) (hs ▸ hsb.2)
  have ht' := toInt_add_of_small (hsmall a ha) (ht ▸ htb.1) (ht ▸ htb.2)
  omega

end Resolve

/-! ## All positions -/

/-- Every address in the range belongs to a fragment. -/
theorem Contiguous.exists_at {start : Nat} {fs : List PlacedFragment} (h : Contiguous start fs)
    {x : Nat} (hlo : start ≤ x) (hhi : x < start + totalLength fs) :
    ∃ f ∈ fs, ∃ j < f.length, x = f.address + j := by
  induction fs generalizing start with
  | nil =>
    rw [totalLength_nil] at hhi
    omega
  | cons f fs ih =>
    obtain ⟨hf, hrest⟩ := h
    rw [totalLength_cons] at hhi
    by_cases hx : x < start + f.length
    · exact ⟨f, List.mem_cons_self, x - start, by omega, by omega⟩
    · obtain ⟨g, hg, j, hj, hxj⟩ := ih hrest (by omega) (by omega)
      exact ⟨g, List.mem_cons_of_mem f hg, j, hj, hxj⟩

namespace Program.Links

variable {p : Program} {base : Int64} {table : SymbolTable Nat} {fragments : List Fragment}

theorem exists_mem_inOrder (h : p.Links base table fragments) {f : PlacedFragment}
    (hf : f ∈ place fragments) : ∃ u ∈ p.inOrder, u.toPlacedFragment = f := by
  rw [← mem_arrange, ← h.map_inOrder] at hf
  exact List.mem_map.1 hf

/-- What stands in the image where a fragment was placed. -/
theorem exists_image_getElem? (h : p.Links base table fragments) {f : PlacedFragment}
    (hf : f ∈ place fragments) {j : Nat} {slot : Relocatable} (hslot : f.trytes[j]? = some slot) :
    ∃ t, p.image[f.address + j]? = some t ∧
      f.resolve ⟨table, place fragments⟩ base slot = .ok t := by
  obtain ⟨u, hu, rfl⟩ := h.exists_mem_inOrder hf
  obtain ⟨t, ht, hresolve⟩ :=
    Outcome.forall₂_getElem? (h.resolved u (h.mem_inOrder hu).1) hslot
  have hj := (List.getElem?_eq_some_iff.1 hslot).1
  exact ⟨t, (h.image_getElem? hu hj).trans ht, hresolve⟩

theorem exists_placed_at (h : p.Links base table fragments) {x : Nat}
    (hx : x < p.image.length) :
    ∃ f ∈ place fragments, ∃ j slot, x = f.address + j ∧ f.trytes[j]? = some slot := by
  rw [h.length_image, ← totalLength_arrange] at hx
  obtain ⟨f, hf, j, hj, hxj⟩ :=
    (contiguous_place fragments).exists_at (Nat.zero_le x) (by omega)
  exact ⟨f, mem_arrange.1 hf, j, _, hxj, List.getElem?_eq_getElem hj⟩

end Program.Links

/-! ## Two bases -/

/-- `p` has the base `b`, and `q` is the same program with the base `c`. -/
structure Program.Relocated (b c : Int64) (p q : Program) : Prop where
  /-- The same trytes before linking, the same labels and lines, the same addresses. -/
  fragments : q.inOrder.map (·.toPlacedFragment) = p.inOrder.map (·.toPlacedFragment)
  symbols : q.symbols = p.symbols
  length_image : q.image.length = p.image.length
  /-- Where no fragment refers to an address, the images agree. -/
  fixed : ∀ x, (∀ u ∈ p.inOrder, ∀ j l, u.trytes[j]? = some (.address l) → x ≠ u.address + j) →
    q.image[x]? = p.image[x]?
  /-- Where one does, the values differ by the difference of the bases: in the arithmetic of the
  machine always, and as integers in every image of less than `2 ^ 62` trytes. -/
  moved : ∀ u ∈ p.inOrder, ∀ j l, u.trytes[j]? = some (.address l) →
    ∃ s t, p.image[u.address + j]? = some s ∧ q.image[u.address + j]? = some t ∧
      Int64.ofInt t.toInt - Int64.ofInt s.toInt = c - b ∧
      (p.image.length < 2 ^ 62 → t.toInt - s.toInt = c.toInt - b.toInt)

namespace Program.Links

variable {p q : Program} {b c : Int64} {table : SymbolTable Nat} {fragments : List Fragment}

theorem symbols_eq (hp : p.Links b table fragments) (hq : q.Links c table fragments) :
    q.symbols = p.symbols := by
  have hsymbol (label : Label) : q.symbol? label = p.symbol? label := by
    have hplaced : q.fragments.map (·.toPlacedFragment) = p.fragments.map (·.toPlacedFragment) :=
      hq.placed.trans hp.placed.symm
    unfold Program.symbol?
    rw [hp.table_eq, hq.table_eq]
    cases table.lookup? label with
    | none => rfl
    | some position =>
      have hposition := congrArg (fun fs : List PlacedFragment =>
        fs[position]?.map fun f => (⟨label, f.address, f.line⟩ : Symbol)) hplaced
      simpa [List.getElem?_map, Option.map_map, Function.comp_def] using hposition
  unfold Program.symbols
  rw [hp.table_eq, hq.table_eq]
  exact List.filterMap_congr fun label _ => hsymbol label

theorem relocated (hp : p.Links b table fragments) (hq : q.Links c table fragments) :
    Relocated b c p q := by
  have hlength : q.image.length = p.image.length := by
    rw [hp.length_image, hq.length_image]
  refine ⟨hq.map_inOrder.trans hp.map_inOrder.symm, hp.symbols_eq hq, hlength, ?_, ?_⟩
  · intro x hx
    by_cases hin : x < p.image.length
    · obtain ⟨f, hf, j, slot, rfl, hslot⟩ := hp.exists_placed_at hin
      obtain ⟨s, hs, hresolve⟩ := hp.exists_image_getElem? hf hslot
      obtain ⟨t, ht, hresolve'⟩ := hq.exists_image_getElem? hf hslot
      have haddress : ∀ l, slot ≠ .address l := by
        rintro l rfl
        obtain ⟨u, hu, rfl⟩ := hp.exists_mem_inOrder hf
        exact hx u hu j l hslot rfl
      rw [resolve_of_not_address haddress, hresolve, Except.ok.injEq] at hresolve'
      rw [hs, ht, hresolve']
    · rw [List.getElem?_eq_none (by omega), List.getElem?_eq_none (by omega)]
  · intro u hu j l hslot
    have hf := (hp.mem_inOrder hu).2
    obtain ⟨s, hs, hresolve⟩ := hp.exists_image_getElem? hf hslot
    obtain ⟨t, ht, hresolve'⟩ := hq.exists_image_getElem? hf hslot
    refine ⟨s, t, hs, ht, ofInt_sub_of_resolve hresolve hresolve', fun hsize => ?_⟩
    apply toInt_sub_of_resolve hresolve hresolve'
    intro a ha
    rw [← hp.address?_eq] at ha
    exact (hp.address?_le ha).trans_lt hsize

end Program.Links

/-! ## No addresses -/

/-- Without references to addresses, a program that links with one base links with every other. -/
theorem Program.Links.exists_of_independent {p : Program} {b : Int64} {table : SymbolTable Nat}
    {fragments : List Fragment} (h : p.Links b table fragments)
    (hindependent : ∀ f ∈ fragments, ∀ l, .address l ∉ f.trytes) (c : Int64) :
    ∃ q : Program, q.Links c table fragments := by
  apply exists_links
  intro f hf
  obtain ⟨u, hu, rfl⟩ := h.exists_mem_inOrder hf
  have hfragment : u.toFragment ∈ fragments := by
    rw [← toFragment_place fragments]
    exact List.mem_map_of_mem hf
  refine ⟨u.code, Outcome.forall₂_imp_of_mem (fun slot hslot t _ ht => ?_)
    (h.resolved u (h.mem_inOrder hu).1)⟩
  have haddress : ∀ l, slot ≠ .address l := by
    rintro l rfl
    exact hindependent _ hfragment l hslot
  rw [resolve_of_not_address haddress]
  exact ht

/-- No statement refers to an address. -/
def PositionIndependent (found : List Statement) : Prop :=
  ∀ s ∈ found, ∀ f, s.Yields f → ∀ l, .address l ∉ f.trytes

theorem exists_assemble_of_independent {comment source : Text} {b : Int64} {p : Program}
    (hp : assemble ⟨comment, b⟩ source = .ok p)
    (hindependent : PositionIndependent (statements comment source)) (c : Int64) :
    ∃ q, assemble ⟨comment, c⟩ source = .ok q := by
  obtain ⟨table, fragments, hread, hlinks⟩ := assemble_eq_ok_iff.1 hp
  obtain ⟨hyields, -⟩ := readFrom_eq_ok_iff.1 hread
  have hfragments : ∀ f ∈ fragments, ∀ l, .address l ∉ f.trytes := by
    intro f hf
    obtain ⟨s, hs, hsf⟩ := Outcome.exists_of_mem_right hyields hf
    exact hindependent s hs f hsf
  obtain ⟨q, hq⟩ := hlinks.exists_of_independent hfragments c
  exact ⟨q, assemble_eq_ok_iff.2 ⟨table, fragments, hread, hq⟩⟩

/-- Two programs from one source text with different bases differ in their addresses, by the
difference of the bases, and in nothing else. If no statement refers to an address, the base does
not matter to whether there is a program at all. -/
theorem assemble_relocates (comment source : Text) (b c : Int64) :
    (∀ p q, assemble ⟨comment, b⟩ source = .ok p → assemble ⟨comment, c⟩ source = .ok q →
      Program.Relocated b c p q) ∧
    (PositionIndependent (statements comment source) →
      ((∃ p, assemble ⟨comment, b⟩ source = .ok p) ↔
        ∃ q, assemble ⟨comment, c⟩ source = .ok q)) := by
  constructor
  · intro p q hp hq
    obtain ⟨table, fragments, hread, hlinks⟩ := assemble_eq_ok_iff.1 hp
    obtain ⟨table', fragments', hread', hlinks'⟩ := assemble_eq_ok_iff.1 hq
    -- The base has no part in the reading.
    rw [hread, Except.ok.injEq, Prod.mk.injEq] at hread'
    obtain ⟨rfl, rfl⟩ := hread'
    exact hlinks.relocated hlinks'
  · intro hindependent
    constructor
    · rintro ⟨p, hp⟩
      exact exists_assemble_of_independent hp hindependent c
    · rintro ⟨q, hq⟩
      exact exists_assemble_of_independent hq hindependent b

/-- A jump to itself, which has a displacement and no address. -/
def selfJump : Text := ".code\na: jmp a".toList

theorem positionIndependent_selfJump : PositionIndependent (statements [';'] selfJump) := by
  have hfound : statements [';'] selfJump = [⟨2, .code, "a: jmp a".toList⟩] := by decide +kernel
  have hsplit : Statement.split ⟨2, .code, "a: jmp a".toList⟩ =
      .ok (some ['a'], "jmp a".toList) := by
    decide +kernel
  have hslots : Instruction.assemble "jmp a".toList =
      .ok [.tryte ⟨⟨.zero, .pos, .zero⟩, ⟨.zero, .zero, .neg⟩⟩,
        .tryte ⟨.zero, ⟨.pos, .zero, .zero⟩⟩, .tryte .zero, .displacement ['a']] := by
    decide +kernel
  intro s hs f hf l
  rw [hfound, List.mem_singleton] at hs
  subst hs
  obtain ⟨label, body, hsplit', hencode⟩ := hf
  rw [hsplit, Except.ok.injEq, Prod.mk.injEq] at hsplit'
  obtain ⟨rfl, rfl⟩ := hsplit'
  obtain ⟨slots, hassemble, rfl⟩ := Statement.encode_eq_ok_iff.1 hencode
  rw [Statement.assemble_of_code rfl, hslots] at hassemble
  simp [← Except.ok.inj hassemble.2]

/-- References to an address and to a displacement, with two bases, and a program without addresses
with the largest base. -/
theorem crossReferences_selfJump_relocate :
    (∃ p q, assemble ⟨[';'], -364⟩ crossReferences = .ok p ∧
      assemble ⟨[';'], 100⟩ crossReferences = .ok q ∧ Program.Relocated (-364) 100 p q) ∧
    (PositionIndependent (statements [';'] selfJump) ∧
      ((∃ p, assemble ⟨[';'], 0⟩ selfJump = .ok p) ↔
        ∃ q, assemble ⟨[';'], Int64.maxValue⟩ selfJump = .ok q)) := by
  have hp : (assemble ⟨[';'], -364⟩ crossReferences).map (·.size) = .ok 12 := by decide +kernel
  have hq : (assemble ⟨[';'], 100⟩ crossReferences).map (·.size) = .ok 12 := by decide +kernel
  obtain ⟨p, hp, -⟩ := Outcome.map_eq_ok.1 hp
  obtain ⟨q, hq, -⟩ := Outcome.map_eq_ok.1 hq
  exact ⟨⟨p, q, hp, hq, (assemble_relocates [';'] crossReferences (-364) 100).1 p q hp hq⟩,
    positionIndependent_selfJump,
    (assemble_relocates [';'] selfJump 0 Int64.maxValue).2 positionIndependent_selfJump⟩

end BalancedTernary.Assembly
