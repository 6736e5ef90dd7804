import BalancedTernary.Proofs.Layout
import BalancedTernary.Proofs.Numeral
import BalancedTernary.Proofs.Outcome

/-!
# Linking

A linked program holds every fragment at its address, and in it every reference has become the tryte
with the exact value that the reference stands for.
-/

namespace BalancedTernary

namespace Assembly

/-! ## References -/

theorem referenceTryte_eq_ok_iff {label : Label} {v : Int64} {t : Tryte} :
    referenceTryte label v = .ok t ↔ t.toInt = v.toInt := by
  unfold referenceTryte
  constructor
  · intro h
    split at h
    · exact nomatch h
    · rename_i word hword
      obtain ⟨u, rfl⟩ := List.length_eq_one_iff.1
        (Word.length_of_ofInt (n := 1) rfl (by decide) hword)
      have hvalue := Word.value_of_ofInt (n := 1) rfl (by decide) hword
      rw [← Except.ok.inj h, ← hvalue, Word.value_singleton]
      rfl
  · intro h
    rw [Word.ofInt_tryte h.symm]
    rfl

theorem exists_referenceTryte (label : Label) {v : Int64} (hlo : -364 ≤ v.toInt)
    (hhi : v.toInt ≤ 364) : ∃ t, referenceTryte label v = .ok t := by
  unfold referenceTryte
  rw [Word.ofInt_eq_ok (n := 1) rfl (by decide) (by omega) (by omega)]
  exact ⟨_, rfl⟩

/-- A sum that wraps around is far from every tryte. -/
theorem toInt_add_of_small {a : Nat} {base : Int64} (ha : a < 2 ^ 62)
    (hlo : -364 ≤ (Int64.ofNat a + base).toInt) (hhi : (Int64.ofNat a + base).toInt ≤ 364) :
    (Int64.ofNat a + base).toInt = a + base.toInt := by
  have hbaseLo := base.le_toInt
  have hbaseHi := base.toInt_lt
  rw [Int64.toInt_add, Int64.toInt_ofNat_of_lt (by omega), Int.bmod_def] at hlo hhi ⊢
  norm_num at *
  omega

/-- A distance is exact wherever its ends are, as long as 64 bits hold it. -/
theorem toInt_ofNat_sub_ofNat {a b : Nat} (hlo : -2 ^ 63 ≤ (a : Int) - b)
    (hhi : (a : Int) - b < 2 ^ 63) : (Int64.ofNat a - Int64.ofNat b).toInt = a - b := by
  rw [Int64.toInt_sub, Int64.toInt_ofNat', Int64.toInt_ofNat', Int.bmod_sub_bmod,
    Int.sub_bmod_bmod]
  change Int.bmod _ (2 ^ 64) = _
  rw [Int.bmod_eq_of_le] <;> omega

/-! ## Programs -/

namespace PlacedFragment

theorem link_eq_ok_iff {symbols : Symbols} {base : Int64} {f : PlacedFragment}
    {l : LinkedFragment} :
    f.link symbols base = .ok l ↔ l.toPlacedFragment = f ∧
      List.Forall₂ (fun slot t => f.resolve symbols base slot = .ok t) f.trytes l.code := by
  unfold link
  rw [← Outcome.mapM_eq_ok]
  constructor
  · intro h
    split at h
    · exact nomatch h
    · rename_i code hcode
      rw [← Except.ok.inj h]
      exact ⟨rfl, hcode⟩
  · rintro ⟨rfl, hcode⟩
    rw [hcode]

end PlacedFragment

/-- What a successful link makes of the fragments. -/
structure Program.Links (p : Program) (base : Int64) (table : SymbolTable Nat)
    (fragments : List Fragment) : Prop where
  table_eq : p.table = table
  base_eq : p.base = base
  placed : p.fragments.map (·.toPlacedFragment) = place fragments
  resolved : ∀ u ∈ p.fragments,
    List.Forall₂ (fun slot t => u.resolve ⟨table, place fragments⟩ base slot = .ok t)
      u.trytes u.code

theorem forall₂_link_iff {symbols : Symbols} {base : Int64} {placed : List PlacedFragment}
    {linked : List LinkedFragment} :
    List.Forall₂ (fun f l => f.link symbols base = .ok l) placed linked ↔
      linked.map (·.toPlacedFragment) = placed ∧
        ∀ u ∈ linked, List.Forall₂ (fun slot t => u.resolve symbols base slot = .ok t)
          u.trytes u.code := by
  induction linked generalizing placed with
  | nil =>
    rw [List.forall₂_nil_right_iff]
    exact ⟨fun h => ⟨h.symm, fun _ hu => (nomatch hu)⟩, fun h => h.1.symm⟩
  | cons u linked ih =>
    rw [List.forall₂_cons_right_iff]
    constructor
    · rintro ⟨f, rest, hf, hrest, rfl⟩
      obtain ⟨rfl, hcode⟩ := PlacedFragment.link_eq_ok_iff.1 hf
      obtain ⟨hmap, hall⟩ := ih.1 hrest
      exact ⟨by rw [List.map_cons, hmap], List.forall_mem_cons.2 ⟨hcode, hall⟩⟩
    · rintro ⟨rfl, hall⟩
      rw [List.forall_mem_cons] at hall
      exact ⟨_, _, PlacedFragment.link_eq_ok_iff.2 ⟨rfl, hall.1⟩, ih.2 ⟨rfl, hall.2⟩, rfl⟩

theorem link_eq_ok_iff {base : Int64} {table : SymbolTable Nat} {fragments : List Fragment}
    {p : Program} : link base table fragments = .ok p ↔ p.Links base table fragments := by
  unfold link
  rw [Outcome.bind_eq_ok]
  constructor
  · rintro ⟨linked, hlinked, hp⟩
    obtain ⟨hplaced, hresolved⟩ := forall₂_link_iff.1 (Outcome.mapM_eq_ok.1 hlinked)
    rw [← Except.ok.inj hp]
    exact ⟨rfl, rfl, hplaced, hresolved⟩
  · intro h
    refine ⟨p.fragments, Outcome.mapM_eq_ok.2 (forall₂_link_iff.2 ⟨h.placed, h.resolved⟩), ?_⟩
    obtain ⟨fragments, table, base⟩ := p
    obtain rfl := h.table_eq
    obtain rfl := h.base_eq
    rfl

theorem exists_links {base : Int64} {table : SymbolTable Nat} {fragments : List Fragment}
    (h : ∀ f ∈ place fragments, ∃ code,
      List.Forall₂ (fun slot t => f.resolve ⟨table, place fragments⟩ base slot = .ok t)
        f.trytes code) :
    ∃ p : Program, p.Links base table fragments := by
  obtain ⟨linked, hlinked, -⟩ := Outcome.exists_mapM_eq_ok
    (f := PlacedFragment.link ⟨table, place fragments⟩ base) (P := fun _ _ => True)
    fun f hf => by
      obtain ⟨code, hcode⟩ := h f hf
      exact ⟨⟨f, code⟩, PlacedFragment.link_eq_ok_iff.2 ⟨rfl, hcode⟩, trivial⟩
  obtain ⟨hplaced, hresolved⟩ := forall₂_link_iff.1 (Outcome.mapM_eq_ok.1 hlinked)
  exact ⟨⟨linked, table, base⟩, rfl, rfl, hplaced, hresolved⟩

theorem assemble_eq_ok_iff {config : Config} {source : Text} {p : Program} :
    assemble config source = .ok p ↔ ∃ table fragments,
      Fragment.readAll (statements config.comment source) = .ok (table, fragments) ∧
        p.Links config.base table fragments := by
  unfold assemble
  rw [Outcome.bind_eq_ok]
  constructor
  · rintro ⟨⟨table, fragments⟩, hread, hlink⟩
    exact ⟨table, fragments, hread, link_eq_ok_iff.1 hlink⟩
  · rintro ⟨table, fragments, hread, hlinks⟩
    exact ⟨(table, fragments), hread, link_eq_ok_iff.2 hlinks⟩

namespace Program

variable {p : Program} {base : Int64} {table : SymbolTable Nat} {fragments : List Fragment}

namespace Links

theorem mem_inOrder (h : p.Links base table fragments) {u : LinkedFragment}
    (hu : u ∈ p.inOrder) : u ∈ p.fragments ∧ u.toPlacedFragment ∈ place fragments := by
  have hmem : u ∈ p.fragments := by
    unfold inOrder at hu
    rw [List.mem_append, List.mem_filter, List.mem_filter] at hu
    exact hu.elim And.left And.left
  refine ⟨hmem, ?_⟩
  rw [← h.placed]
  exact List.mem_map_of_mem hmem

theorem length_code (h : p.Links base table fragments) {u : LinkedFragment}
    (hu : u ∈ p.fragments) : u.code.length = u.trytes.length :=
  (h.resolved u hu).length_eq.symm

theorem map_inOrder (h : p.Links base table fragments) :
    p.inOrder.map (·.toPlacedFragment) = arrange (place fragments) := by
  unfold inOrder arrange
  rw [← h.placed, List.map_append, List.filter_map, List.filter_map]
  rfl

/-- The addresses that a program shows are those that its references were resolved against. -/
theorem address?_eq (h : p.Links base table fragments) (label : Label) :
    p.address? label = Symbols.address? ⟨table, place fragments⟩ label := by
  unfold address? symbol? Symbols.address?
  rw [h.table_eq, ← h.placed]
  cases table.lookup? label with
  | none => rfl
  | some position =>
    rw [Option.bind_some, Option.bind_some, List.getElem?_map, Option.map_map, Option.map_map]
    rfl

end Links

end Program

/-- The trytes of fragments without gaps stand at their addresses. -/
theorem getElem?_flatMap_code {start : Nat} {linked : List LinkedFragment}
    (hlinked : Contiguous start (linked.map (·.toPlacedFragment)))
    (hcode : ∀ u ∈ linked, u.code.length = u.trytes.length) {u : LinkedFragment} (hu : u ∈ linked)
    {j : Nat} (hj : j < u.trytes.length) :
    (linked.flatMap (·.code))[u.address - start + j]? = u.code[j]? := by
  induction linked generalizing start with
  | nil => exact nomatch hu
  | cons v linked ih =>
    obtain ⟨hv, hrest⟩ := hlinked
    rw [List.forall_mem_cons] at hcode
    rw [List.flatMap_cons]
    obtain rfl | hu := List.mem_cons.1 hu
    · have hv : u.address = start := hv
      rw [hv, Nat.sub_self, Nat.zero_add, List.getElem?_append_left (by omega)]
    · -- Past the first fragment, the rest of the trytes starts at the next address.
      have hlow := (hrest.bounds (List.mem_map_of_mem hu)).1
      change start + v.trytes.length ≤ u.address at hlow
      rw [List.getElem?_append_right (by omega), ← ih hrest hcode.2 hu]
      change _ = (linked.flatMap (·.code))[u.address - (start + v.trytes.length) + j]?
      congr 1
      omega

namespace Program.Links

variable {p : Program} {base : Int64} {table : SymbolTable Nat} {fragments : List Fragment}

theorem image_getElem? (h : p.Links base table fragments) {u : LinkedFragment}
    (hu : u ∈ p.inOrder) {j : Nat} (hj : j < u.trytes.length) :
    p.image[u.address + j]? = u.code[j]? := by
  have hcontiguous : Contiguous 0 (p.inOrder.map (·.toPlacedFragment)) := by
    rw [h.map_inOrder]
    exact contiguous_place fragments
  exact getElem?_flatMap_code hcontiguous (fun v hv => h.length_code (h.mem_inOrder hv).1) hu hj

theorem length_image (h : p.Links base table fragments) :
    p.image.length = totalLength (place fragments) := by
  rw [← totalLength_arrange, ← h.map_inOrder]
  unfold image totalLength
  rw [List.flatMap_map, List.length_flatMap, List.length_flatMap]
  congr 1
  apply List.map_congr_left
  intro u hu
  exact h.length_code (h.mem_inOrder hu).1

/-- Every address lies in the image. -/
theorem stop_le (h : p.Links base table fragments) {f : PlacedFragment}
    (hf : f ∈ place fragments) : f.stop ≤ p.image.length := by
  have hbounds := (contiguous_place fragments).bounds (mem_arrange.2 hf)
  rw [totalLength_arrange, Nat.zero_add] at hbounds
  rw [h.length_image]
  exact hbounds.2

theorem address?_le (h : p.Links base table fragments) {label : Label} {a : Nat}
    (ha : p.address? label = some a) : a ≤ p.image.length := by
  rw [h.address?_eq] at ha
  obtain ⟨position, -, ha⟩ := Option.bind_eq_some_iff.1 ha
  obtain ⟨f, hf, rfl⟩ := Option.map_eq_some_iff.1 ha
  have hstop := h.stop_le (List.mem_of_getElem? hf)
  unfold PlacedFragment.stop at hstop
  omega

end Program.Links

/-- A displacement is the exact distance to its label. -/
theorem Program.Links.toInt_displacement {p : Program} {base : Int64} {table : SymbolTable Nat}
    {fragments : List Fragment} (h : p.Links base table fragments)
    (hsize : p.image.length < 2 ^ 63) {u : LinkedFragment}
    (hu : u.toPlacedFragment ∈ place fragments) {label : Label} {t : Tryte}
    (ht : u.resolve ⟨table, place fragments⟩ base (.displacement label) = .ok t) :
    ∃ a, p.address? label = some a ∧ t.toInt = (a : Int) - u.stop := by
  unfold PlacedFragment.resolve at ht
  dsimp only at ht
  rw [← h.address?_eq] at ht
  split at ht
  · exact nomatch ht
  · rename_i target htarget
    -- Both ends lie in the image, so the distance between them does not wrap around.
    have htargetLt := (h.address?_le htarget).trans_lt hsize
    have hstopLt := (h.stop_le hu).trans_lt hsize
    refine ⟨target, htarget, (referenceTryte_eq_ok_iff.1 ht).trans ?_⟩
    exact toInt_ofNat_sub_ofNat (by omega) (by omega)

/-- The tryte that `slot` of the fragment `u` becomes, when addresses are those of `p`. -/
def Program.Holds (p : Program) (base : Int64) (u : LinkedFragment) (t : Tryte) :
    Relocatable → Prop
  | .tryte s => t = s
  | .address label => ∃ a, p.address? label = some a ∧ t.toInt = a + base.toInt
  | .displacement label =>
    ∃ a, p.address? label = some a ∧ t.toInt = a - (u.address + u.length)

theorem Program.Links.holds {p : Program} {base : Int64} {table : SymbolTable Nat}
    {fragments : List Fragment} (h : p.Links base table fragments)
    (hsize : p.image.length < 2 ^ 62) {u : LinkedFragment}
    (hu : u.toPlacedFragment ∈ place fragments) {slot : Relocatable} {t : Tryte}
    (ht : u.resolve ⟨table, place fragments⟩ base slot = .ok t) : p.Holds base u t slot := by
  unfold PlacedFragment.resolve at ht
  cases slot with
  | tryte s => exact (Except.ok.inj ht).symm
  | address label =>
    dsimp only at ht
    rw [← h.address?_eq] at ht
    split at ht
    · exact nomatch ht
    · rename_i target htarget
      have hvalue := referenceTryte_eq_ok_iff.1 ht
      have hbounds := t.toInt_bounds
      have htargetLt := (h.address?_le htarget).trans_lt hsize
      -- The sum may wrap around for some bases, but what a tryte holds has not.
      refine ⟨target, htarget, hvalue.trans ?_⟩
      exact toInt_add_of_small htargetLt (hvalue ▸ hbounds.1) (hvalue ▸ hbounds.2)
  | displacement label =>
    obtain ⟨target, htarget, hvalue⟩ := h.toInt_displacement (hsize.trans (by decide)) hu ht
    refine ⟨target, htarget, hvalue.trans ?_⟩
    unfold PlacedFragment.stop
    rw [Int.natCast_add]

/-- A linked program holds the trytes of every fragment at its address, and each reference in them
has its exact value. -/
theorem assemble_links_exactly {config : Config} {source : Text} {p : Program}
    (h : assemble config source = .ok p) (hsize : p.image.length < 2 ^ 62) :
    ∀ u ∈ p.inOrder, u.code.length = u.trytes.length ∧
      ∀ (j : Nat) (slot : Relocatable), u.trytes[j]? = some slot →
        ∃ t, u.code[j]? = some t ∧ p.image[u.address + j]? = some t ∧
          p.Holds config.base u t slot := by
  intro u hu
  obtain ⟨table, fragments, -, hlinks⟩ := assemble_eq_ok_iff.1 h
  obtain ⟨hmem, hplaced⟩ := hlinks.mem_inOrder hu
  refine ⟨hlinks.length_code hmem, fun j slot hslot => ?_⟩
  obtain ⟨hj, rfl⟩ := List.getElem?_eq_some_iff.1 hslot
  have hjcode : j < u.code.length := hlinks.length_code hmem ▸ hj
  have hresolve := (hlinks.resolved u hmem).get hj hjcode
  exact ⟨_, List.getElem?_eq_getElem hjcode,
    (hlinks.image_getElem? hu hj).trans (List.getElem?_eq_getElem hjcode),
    hlinks.holds hsize hplaced hresolve⟩

/-- References forward, backward and from one segment to the other. -/
def crossReferences : Text :=
  ".code\njmp b\na: jmp a\nb: restart\n.data\ntryte b".toList

theorem crossReferences_links :
    ∃ p, assemble .default crossReferences = .ok p ∧ p.image.length < 2 ^ 62 ∧
      ∀ u ∈ p.inOrder, u.code.length = u.trytes.length ∧
        ∀ (j : Nat) (slot : Relocatable), u.trytes[j]? = some slot →
          ∃ t, u.code[j]? = some t ∧ p.image[u.address + j]? = some t ∧
            p.Holds (-364) u t slot := by
  have himage : (assemble .default crossReferences).map (fun p => p.image.map Tryte.toInt) =
      .ok [80, 9, 0, 4, 80, 9, 0, -4, -334, 243, -27, -356] := by
    decide +kernel
  obtain ⟨p, hp, hvalues⟩ := Outcome.map_eq_ok.1 himage
  have hlength := congrArg List.length hvalues
  rw [List.length_map] at hlength
  have hsize : p.image.length < 2 ^ 62 := by
    rw [hlength]
    decide
  exact ⟨p, hp, hsize, assemble_links_exactly hp hsize⟩

end Assembly

end BalancedTernary
