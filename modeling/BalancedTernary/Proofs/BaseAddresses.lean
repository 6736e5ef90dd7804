import BalancedTernary.Proofs.DataLabels
import BalancedTernary.Proofs.ListingLines
import BalancedTernary.Proofs.NumeralGrammar

/-!
# Base addresses

The base address of a program is any integer of 64 bits. The sums with it are made in 64 bits, and
only then are they compared with what a tryte or a pair holds. In an image of less than 2 ^ 62
trytes a sum that wraps around is far from both, so the exact sum decides.
-/

namespace BalancedTernary

namespace Assembly

/-! ## Sums and distances -/

/-- Where a sum wraps around, neither it nor the exact sum is near zero. -/
theorem toInt_add_cases {a : Nat} (ha : a < 2 ^ 62) (base : Int64) :
    (Int64.ofNat a + base).toInt = a + base.toInt ∨
      (Int64.ofNat a + base).toInt < -2 ^ 62 ∧ 2 ^ 63 ≤ a + base.toInt := by
  have hlo := base.le_toInt
  have hhi := base.toInt_lt
  rw [Int64.toInt_add, Int64.toInt_ofNat_of_lt (by omega)]
  by_cases hsum : a + base.toInt < 2 ^ 63
  · left
    apply Int.bmod_eq_of_le <;> omega
  · right
    -- The sum is less than 2 ^ 64, so it wraps around once.
    have hwrapped : Int.bmod (a + base.toInt) (2 ^ 64) = a + base.toInt - 2 ^ 64 := by
      rw [← Int.sub_bmod_right]
      apply Int.bmod_eq_of_le <;> omega
    rw [hwrapped]
    omega

/-! ## References -/

/-- `outcome` comes of a reference to `v`: the tryte that holds it, or else a fault. -/
structure DecidedBy (outcome : Except Fault Tryte) (v : Int) : Prop where
  ok_iff : ∀ t, outcome = .ok t ↔ t.toInt = v
  outOfRange_iff : (∃ fault, outcome = .error fault ∧ fault.kind = .valueOutOfRange) ↔
    v < -364 ∨ 364 < v

/-- What is computed for a reference may differ from its value where a tryte holds neither. -/
theorem decidedBy_referenceTryte (label : Label) {computed : Int64} {v : Int}
    (h : computed.toInt = v ∨ ¬ FitsTryte computed ∧ (v < -364 ∨ 364 < v)) :
    DecidedBy (referenceTryte label computed) v := by
  constructor
  case ok_iff =>
    intro t
    have hbounds := t.toInt_bounds
    rw [referenceTryte_eq_ok_iff]
    unfold FitsTryte at h
    omega
  case outOfRange_iff =>
    have hfault : (∃ fault, referenceTryte label computed = .error fault ∧
        fault.kind = .valueOutOfRange) ↔ ¬ FitsTryte computed := by
      constructor
      · rintro ⟨fault, hfault, -⟩
        exact (referenceTryte_eq_error_iff.1 hfault).1
      · intro hbig
        exact ⟨_, referenceTryte_eq_error_iff.2 ⟨hbig, rfl⟩, rfl⟩
    rw [hfault]
    unfold FitsTryte at h ⊢
    omega

/-- The value of a reference from `f` to the address `target`, as an integer. -/
def PlacedFragment.exactValue (base : Int) (f : PlacedFragment) (target : Nat) :
    Relocatable → Int
  | .displacement _ => target - (f.address + f.length)
  | _ => target + base

theorem PlacedFragment.decidedBy_resolve {f : PlacedFragment} {symbols : Symbols} {a : Nat}
    (ha : a < 2 ^ 62) (hf : f.stop < 2 ^ 62) (base : Int64) {slot : Relocatable} {l : Label}
    (hslot : slot.label? = some l) (hl : symbols.address? l = some a) :
    DecidedBy (f.resolve symbols base slot) (f.exactValue base.toInt a slot) := by
  rw [resolve_of_label? _ hslot, hl]
  apply decidedBy_referenceTryte
  unfold FitsTryte
  cases slot with
  | tryte t => cases hslot
  | address l =>
    have hcases := toInt_add_cases ha base
    simp only [referenceValue, exactValue]
    omega
  | displacement l =>
    -- Both ends are addresses in the image, so their distance cannot wrap around.
    left
    simp only [referenceValue, exactValue]
    rw [toInt_ofNat_sub_ofNat] <;> unfold stop at * <;> omega

/-! ## Machine addresses -/

/-- `text` is the address `v` in the machine's memory: its digits in base 27, or question marks when
a pair does not hold it. -/
structure DenotesAddress (text : Text) (v : Int) : Prop where
  digits_iff : (∃ (word : Word) (digits : List Int), word.length = 2 ∧ text = word.symbols ∧
      List.Forall₂ Numeral.TriadDigit text digits ∧ Numeral.positional 27 digits = v) ↔
    -265720 ≤ v ∧ v ≤ 265720
  marks_iff : text = List.replicate 4 '?' ↔ v < -265720 ∨ 265720 < v

theorem forall₂_triadDigit_symbols (w : Word) :
    List.Forall₂ Numeral.TriadDigit w.symbols (w.triads.map Triad.toInt) := by
  apply Numeral.forall₂_triadDigit_iff.2 ⟨w.triads, ?_, rfl⟩
  rw [Word.symbols_eq_map, List.map_map]
  exact List.map_congr_left fun t _ => t.upperChar_symbol.symm

theorem positional_triads_eq_value (w : Word) :
    Numeral.positional 27 (w.triads.map Triad.toInt) = w.value := by
  rw [Numeral.positional_triads, ← Word.trits_eq_flatMap]
  rfl

theorem symbols_ne_marks (w : Word) : w.symbols ≠ List.replicate 4 '?' := by
  intro h
  have hmem : '?' ∈ w.symbols := by
    rw [h]
    exact List.mem_replicate.2 ⟨by decide, rfl⟩
  rw [Word.symbols_eq_map] at hmem
  obtain ⟨t, -, ht⟩ := List.mem_map.1 hmem
  have htable := List.mem_of_getElem? t.getElem?_symbols
  rw [ht] at htable
  exact absurd htable (by decide)

theorem denotesAddress_machineAddress {a : Nat} (ha : a < 2 ^ 62) (base : Int64) :
    DenotesAddress (Listing.machineAddress base a) (a + base.toInt) := by
  have hcases := toInt_add_cases ha base
  by_cases hfits : -265720 ≤ a + base.toInt ∧ a + base.toInt ≤ 265720
  · -- The sum is near zero, so it did not wrap around.
    have hexact : (Int64.ofNat a + base).toInt = a + base.toInt := by omega
    obtain ⟨word, hword⟩ : ∃ word, Word.ofInt (Int64.ofNat a + base) .pair = .ok word :=
      ⟨_, Word.ofInt_eq_ok (n := 2) rfl (by decide) (by omega) (by omega)⟩
    have hvalue := Word.value_of_ofInt (n := 2) rfl (by decide) hword
    have htext : Listing.machineAddress base a = word.symbols := by
      unfold Listing.machineAddress
      rw [hword]
    rw [htext]
    constructor
    case digits_iff =>
      apply iff_of_true _ hfits
      refine ⟨word, _, Word.length_of_ofInt (n := 2) rfl (by decide) hword, rfl,
        forall₂_triadDigit_symbols word, ?_⟩
      rw [positional_triads_eq_value, hvalue, hexact]
    case marks_iff => exact iff_of_false (symbols_ne_marks word) (by omega)
  · have hword : Word.ofInt (Int64.ofNat a + base) .pair =
        .error (.integerTooBig (Int64.ofNat a + base) .pair) :=
      Word.ofInt_eq_error (n := 2) rfl (by decide) (by omega)
    have htext : Listing.machineAddress base a = List.replicate 4 '?' := by
      unfold Listing.machineAddress
      rw [hword]
    rw [htext]
    constructor
    case digits_iff =>
      refine iff_of_false ?_ hfits
      rintro ⟨word, digits, -, hmarks, -⟩
      exact symbols_ne_marks word hmarks.symm
    case marks_iff => exact iff_of_true rfl (by omega)

/-- The first line of the fragment `f` has its address and its address in the machine's memory, and
the lines after it have neither. -/
def Listing.Heads (base : Int) (f : LinkedFragment) (block : List Text) : Prop :=
  ∃ first rest machine, block = first :: rest ∧
    Listing.continues first = false ∧ (∀ line ∈ rest, Listing.continues line = true) ∧
    (Text.words first).take 2 = [Text.natural f.address, machine] ∧
    DenotesAddress machine (f.address + base)

theorem Listing.heads_block {f : LinkedFragment} (hf : f.address < 2 ^ 62) (hcode : f.code ≠ [])
    (base : Int64) (n : Nat) : Listing.Heads base.toInt f (Listing.block base n f) := by
  obtain ⟨row, rows, -, hblock⟩ := Listing.exists_block hcode base n
  refine ⟨_, _, _, hblock, Listing.continues_firstLine base n f row, ?_, ?_,
    denotesAddress_machineAddress hf base⟩
  · intro line hline
    obtain ⟨row, -, rfl⟩ := List.mem_map.1 hline
    exact Listing.continues_nextLine row
  · rw [Listing.trim_firstLine, Listing.words_addressColumns_append]
    rfl

/-! ## Programs -/

/-- All statements of a source text can be read, as the given fragments. The labels that they refer
to are defined, and there are less than 2 ^ 62 trytes. -/
structure Placeable (comment source : Text) (table : SymbolTable Nat)
    (fragments : List Fragment) : Prop where
  read : Fragment.readAll (statements comment source) = .ok (table, fragments)
  defined : AllDefined (place fragments)
  size : totalLength (place fragments) < 2 ^ 62

namespace Placeable

variable {comment source : Text} {table : SymbolTable Nat} {fragments : List Fragment}
  {f : PlacedFragment} {slot : Relocatable} {l : Label}

theorem stop_lt (h : Placeable comment source table fragments) (hf : f ∈ place fragments) :
    f.stop < 2 ^ 62 := by
  have hbounds := (contiguous_place fragments).bounds (mem_arrange.2 hf)
  have hsize := h.size
  rw [totalLength_arrange] at hbounds
  omega

/-- A label that is referred to has an address. -/
theorem exists_address (h : Placeable comment source table fragments) (hf : f ∈ place fragments)
    (hslot : slot ∈ f.trytes) (hl : slot.label? = some l) :
    ∃ a, Symbols.address? ⟨table, place fragments⟩ l = some a := by
  obtain ⟨g, hg, hlabel⟩ := h.defined f hf slot hslot l hl
  have htable := (readFrom_eq_ok_iff.1 h.read).2
  exact ⟨g.address, (address?_eq_some_iff htable).2 ⟨g, hg, hlabel, rfl⟩⟩

theorem decidedBy_resolve (h : Placeable comment source table fragments)
    (hf : f ∈ place fragments) (hl : slot.label? = some l) {a : Nat}
    (ha : Symbols.address? ⟨table, place fragments⟩ l = some a) (base : Int64) :
    DecidedBy (f.resolve ⟨table, place fragments⟩ base slot)
      (f.exactValue base.toInt a slot) := by
  have htable := (readFrom_eq_ok_iff.1 h.read).2
  obtain ⟨g, hg, -, rfl⟩ := (address?_eq_some_iff htable).1 ha
  have hstop := h.stop_lt hg
  unfold PlacedFragment.stop at hstop
  exact PlacedFragment.decidedBy_resolve (by omega) (h.stop_lt hf) base hl ha

theorem links (h : Placeable comment source table fragments) {base : Int64} {p : Program}
    (hp : assemble ⟨comment, base⟩ source = .ok p) : p.Links base table fragments := by
  obtain ⟨table', fragments', hread, hlinks⟩ := assemble_eq_ok_iff.1 hp
  obtain ⟨rfl, rfl⟩ := Prod.mk.inj (Except.ok.inj (h.read.symm.trans hread))
  exact hlinks

/-- The fault of a source text is that of one of its references. -/
theorem exists_of_error (h : Placeable comment source table fragments) {base : Int64}
    {e : LineFault} (he : assemble ⟨comment, base⟩ source = .error e) :
    ∃ f ∈ place fragments, ∃ slot ∈ f.trytes, ∃ l, slot.label? = some l ∧
      f.resolve ⟨table, place fragments⟩ base slot = .error e.fault ∧
      e.fault.kind = .valueOutOfRange := by
  have htable := (readFrom_eq_ok_iff.1 h.read).2
  have hlink : link base table fragments = .error e := by
    unfold assemble at he
    rwa [h.read] at he
  obtain ⟨earlier, f, later, hplaced, -, ⟨before, slot, after, htrytes, -, hslot⟩, -⟩ :=
    (link_eq_error_iff htable).1 hlink
  have hf : f ∈ place fragments := by simp [hplaced]
  have hmem : slot ∈ f.trytes := by simp [htrytes]
  have hresolve := (resolve_eq_error_iff htable).2 hslot
  generalize e.fault = fault at hslot hresolve ⊢
  cases hslot with
  | undefined hl hundefined =>
    obtain ⟨g, hg, hlabel⟩ := h.defined f hf slot hmem _ hl
    exact absurd hlabel (hundefined g hg)
  | tooBig hl hg hlabel hbig => exact ⟨f, hf, slot, hmem, _, hl, hresolve, rfl⟩

end Placeable

/-- What the base address does to a source text that is read as the given fragments. Sums and
distances are those of integers. -/
structure ExactFrom (base : Int64) (comment source : Text) (table : SymbolTable Nat)
    (fragments : List Fragment) : Prop where
  references : ∀ f ∈ place fragments, ∀ slot ∈ f.trytes, ∀ l ∈ slot.label?,
    ∃ a, Symbols.address? ⟨table, place fragments⟩ l = some a ∧
      DecidedBy (f.resolve ⟨table, place fragments⟩ base slot) (f.exactValue base.toInt a slot)
  assembles_iff : (∃ p, assemble ⟨comment, base⟩ source = .ok p) ↔
    ∀ f ∈ place fragments, ∀ slot ∈ f.trytes, ∀ l ∈ slot.label?,
      ∀ a, Symbols.address? ⟨table, place fragments⟩ l = some a →
        -364 ≤ f.exactValue base.toInt a slot ∧ f.exactValue base.toInt a slot ≤ 364
  kind_of_error : ∀ e, assemble ⟨comment, base⟩ source = .error e →
    e.fault.kind = .valueOutOfRange
  listing : ∀ p, assemble ⟨comment, base⟩ source = .ok p → ∀ width : Int64,
    ∃ blocks : List (List Text), blocks.flatten = Listing.lines width p ∧
      List.Forall₂ (Listing.Heads base.toInt) p.inOrder blocks

/-- The base address and the addresses in an image are added exactly, or so that it makes no
difference. -/
theorem base_address_exact {comment source : Text} {table : SymbolTable Nat}
    {fragments : List Fragment} (h : Placeable comment source table fragments) (base : Int64) :
    ExactFrom base comment source table fragments := by
  constructor
  case references =>
    intro f hf slot hslot l hl
    obtain ⟨a, ha⟩ := h.exists_address hf hslot hl
    exact ⟨a, ha, h.decidedBy_resolve hf hl ha base⟩
  case assembles_iff =>
    constructor
    · rintro ⟨p, hp⟩ f hf slot hslot l hl a ha
      have hlinks := h.links hp
      rw [← hlinks.placed] at hf
      obtain ⟨u, hu, rfl⟩ := List.mem_map.1 hf
      obtain ⟨t, -, ht⟩ := Outcome.exists_of_mem_left (hlinks.resolved u hu) hslot
      rw [hlinks.placed] at hf
      -- The reference has a tryte, and a tryte holds no more than this.
      rw [← ((h.decidedBy_resolve hf hl ha base).ok_iff t).1 ht]
      exact t.toInt_bounds
    · intro hfits
      cases hassemble : assemble ⟨comment, base⟩ source with
      | ok p => exact ⟨p, rfl⟩
      | error e =>
        obtain ⟨f, hf, slot, hslot, l, hl, hresolve, hkind⟩ := h.exists_of_error hassemble
        obtain ⟨a, ha⟩ := h.exists_address hf hslot hl
        have hbig := (h.decidedBy_resolve hf hl ha base).outOfRange_iff.1 ⟨_, hresolve, hkind⟩
        have hvalue := hfits f hf slot hslot l hl a ha
        omega
  case kind_of_error =>
    intro e he
    obtain ⟨-, -, -, -, -, -, -, hkind⟩ := h.exists_of_error he
    exact hkind
  case listing =>
    intro p hp width
    have hlinks := h.links hp
    have hyields := (readFrom_eq_ok_iff.1 h.read).1
    refine ⟨_, Listing.flatten_blocks width p, ?_⟩
    rw [List.forall₂_map_right_iff, List.forall₂_same, hlinks.base_eq]
    intro u hu
    have hstop := h.stop_lt (hlinks.mem_inOrder hu).2
    unfold PlacedFragment.stop at hstop
    exact Listing.heads_block (by omega) (hlinks.code_ne_nil hyields hu) base _

theorem exists_placeable {comment source : Text}
    (h : (Fragment.readAll (statements comment source)).map (fun r =>
      decide (AllDefined (place r.2) ∧ totalLength (place r.2) < 2 ^ 62)) = .ok true) :
    ∃ table fragments, Placeable comment source table fragments := by
  obtain ⟨⟨table, fragments⟩, hread, hplaced⟩ := Outcome.map_eq_ok.1 h
  obtain ⟨hdefined, hsize⟩ := of_decide_eq_true hplaced
  exact ⟨table, fragments, hread, hdefined, hsize⟩

/-- A reference to an address in the data segment. -/
def farReference : Text := ".code\na: jmp a\n.data\nd: tryte d".toList

/-- Only a distance, so the base address does not matter. -/
def farJump : Text := ".code\na: restart\njmp a".toList

/-- At the largest base address the sum wraps around and is refused. Near the largest address of the
machine's memory the first fragment has digits, and the second has none. -/
theorem far_base_exact :
    (∃ table fragments, Placeable [';'] farReference table fragments ∧
      ExactFrom Int64.maxValue [';'] farReference table fragments ∧
      (assemble ⟨[';'], Int64.maxValue⟩ farReference).map (·.image) =
        .error ⟨4, .reference ['d'] (.integerTooBig (-9223372036854775805) .tryte)⟩) ∧
    ∃ table fragments, Placeable [';'] farJump table fragments ∧
      ExactFrom 265719 [';'] farJump table fragments ∧
      (assemble ⟨[';'], 265719⟩ farJump).map (Listing.lines 50) =
        .ok ["    0  DDDC  λλ0λ0λ 100000 00λ000                ; a: restart".toList,
          "    3  ????  01000λ 000100 000000 000λ1λ         ; jmp a".toList] := by
  constructor
  · obtain ⟨table, fragments, h⟩ : ∃ table fragments,
        Placeable [';'] farReference table fragments :=
      exists_placeable (by decide +kernel)
    exact ⟨table, fragments, h, base_address_exact h Int64.maxValue, by decide +kernel⟩
  · obtain ⟨table, fragments, h⟩ : ∃ table fragments, Placeable [';'] farJump table fragments :=
      exists_placeable (by decide +kernel)
    exact ⟨table, fragments, h, base_address_exact h 265719, by decide +kernel⟩

end Assembly

end BalancedTernary
