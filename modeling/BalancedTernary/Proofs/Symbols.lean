import BalancedTernary.Proofs.Extent
import BalancedTernary.Proofs.Linking
import Mathlib.Data.List.Lex
import Mathlib.Data.List.Nodup

/-!
# Programs and their symbols

A program has one fragment for each statement and one symbol for each label. The fragments follow
each other without gaps, none of them is empty, and so a label is known by its address.
-/

namespace BalancedTernary

/-! ## The order of names -/

namespace Text

/-- `s` comes before `t` in the order of code points. -/
def Precedes (s t : Text) : Prop := List.Lex (fun c d : Char => c.toNat < d.toNat) s t

theorem Precedes.asymm {s t : Text} (h : Precedes s t) : ¬ Precedes t s := by
  have hlt : Std.Asymm fun c d : Char => c.toNat < d.toNat := ⟨fun _ _ => Nat.lt_asymm⟩
  exact (List.Lex.asymm _).asymm s t h

theorem le_iff (s t : Text) : le s t = true ↔ s = t ∨ Precedes s t := by
  unfold Precedes
  induction s generalizing t with
  | nil => cases t <;> simp [le]
  | cons a s ih =>
    cases t with
    | nil => simp [le]
    | cons b t =>
      by_cases hab : a = b
      · subst hab
        simp [le, ih, List.cons_lex_cons_iff]
      · simp [le, hab, List.cons_lex_cons_iff]

theorem le_total (s t : Text) : (le s t || le t s) = true := by
  induction s generalizing t with
  | nil => rfl
  | cons a s ih =>
    cases t with
    | nil => rfl
    | cons b t =>
      by_cases hab : a = b
      · subst hab
        simpa [le] using ih t
      · have hne : a.toNat ≠ b.toNat := fun h => hab (Char.toNat_inj.1 h)
        simp only [le, hab, Ne.symm hab, if_false, Bool.or_eq_true, decide_eq_true_eq]
        omega

theorem le_trans (s t u : Text) (hst : le s t = true) (htu : le t u = true) :
    le s u = true := by
  induction s generalizing t u with
  | nil => rfl
  | cons a s ih =>
    match t, u with
    | b :: t, c :: u =>
      simp only [le] at hst htu ⊢
      by_cases hab : a = b
      · subst hab
        by_cases hac : a = c
        · subst hac
          simp only [if_true] at hst htu ⊢
          exact ih t u hst htu
        · simpa [hac] using htu
      · simp only [hab, if_false, decide_eq_true_eq] at hst
        by_cases hbc : b = c
        · subst hbc
          simpa [hab] using hst
        · simp only [hbc, if_false, decide_eq_true_eq] at htu
          -- Two steps up in the first character are one, so the ends differ there.
          have hac : a ≠ c := by
            rintro rfl
            omega
          simp only [hac, if_false, decide_eq_true_eq]
          omega

end Text

namespace Assembly

/-! ## Symbol tables -/

/-- The labels in the order in which they were defined, the last one first. -/
def SymbolTable.keys (table : SymbolTable Nat) : List Label := table.entries.map Prod.fst

section Tables

variable {symbols table : SymbolTable Nat} {position : Nat} {fragments : List Fragment}

theorem SymbolTable.lookup?_eq_none_iff {l : Label} : table.lookup? l = none ↔ l ∉ table.keys := by
  simp only [lookup?, keys, List.lookup_eq_none_iff, List.mem_map, bne_iff_ne]
  constructor
  · rintro h ⟨p, hp, rfl⟩
    exact h p hp rfl
  · intro h p hp heq
    exact h ⟨p, hp, heq.symm⟩

/-- The labels of the fragments come to the table, each of them once. -/
theorem keys_of_declareFrom (h : declareFrom symbols position fragments = .ok table)
    (hnodup : symbols.keys.Nodup) :
    table.keys = (fragments.filterMap Fragment.label).reverse ++ symbols.keys ∧
      table.keys.Nodup := by
  induction fragments generalizing symbols position with
  | nil =>
    rw [← Except.ok.inj h]
    exact ⟨rfl, hnodup⟩
  | cons f fragments ih =>
    obtain ⟨symbols', hdeclare, hrest⟩ := Outcome.bind_eq_ok.1 h
    cases hlabel : f.label with
    | none =>
      rw [hlabel] at hdeclare
      obtain rfl : symbols = symbols' := Except.ok.inj hdeclare
      simpa [hlabel] using ih hrest hnodup
    | some l =>
      rw [hlabel] at hdeclare
      obtain ⟨hfresh, rfl⟩ := SymbolTable.fresh_of_define hdeclare
      have hkeys : (SymbolTable.keys ⟨(l, position) :: symbols.entries⟩).Nodup :=
        List.nodup_cons.2 ⟨SymbolTable.lookup?_eq_none_iff.1 hfresh, hnodup⟩
      obtain ⟨heq, htable⟩ := ih hrest hkeys
      refine ⟨?_, htable⟩
      rw [heq, List.filterMap_cons_some hlabel, List.reverse_cons, List.append_assoc]
      rfl

variable (h : declareFrom .empty 0 fragments = .ok table)

include h

theorem perm_keys : table.keys.Perm (fragments.filterMap Fragment.label) := by
  have hkeys := (keys_of_declareFrom h List.nodup_nil).1
  rw [hkeys]
  show ((fragments.filterMap Fragment.label).reverse ++ []).Perm _
  rw [List.append_nil]
  exact List.reverse_perm _

theorem nodup_labels : (fragments.filterMap Fragment.label).Nodup :=
  (perm_keys h).nodup_iff.1 (keys_of_declareFrom h List.nodup_nil).2

/-- A label stands for the one position whose fragment carries it. -/
theorem lookup?_eq_some_iff {l : Label} {k : Nat} :
    table.lookup? l = some k ↔ ∃ f, fragments[k]? = some f ∧ f.label = some l := by
  constructor
  · intro hk
    have hmem : l ∈ fragments.filterMap Fragment.label := by
      rw [← (perm_keys h).mem_iff]
      by_contra hnone
      rw [← SymbolTable.lookup?_eq_none_iff, hk] at hnone
      exact nomatch hnone
    -- Some fragment carries the label, and the table leads to that one.
    obtain ⟨f, hf, hl⟩ := List.mem_filterMap.1 hmem
    obtain ⟨j, hj⟩ := List.mem_iff_getElem?.1 hf
    have hlookup := lookup?_of_declareFrom h hj hl
    rw [hk, Nat.zero_add] at hlookup
    rw [Option.some.inj hlookup]
    exact ⟨f, hj, hl⟩
  · rintro ⟨f, hf, hl⟩
    rw [lookup?_of_declareFrom h hf hl, Nat.zero_add]

/-- A label leads to an address exactly when a fragment with the label is placed there. -/
theorem address?_eq_some_iff {l : Label} {a : Nat} :
    Symbols.address? ⟨table, place fragments⟩ l = some a ↔
      ∃ f ∈ place fragments, f.label = some l ∧ f.address = a := by
  have hplaced (k : Nat) : fragments[k]? = (place fragments)[k]?.map (·.toFragment) := by
    rw [← List.getElem?_map, toFragment_place]
  unfold Symbols.address?
  simp only [Option.bind_eq_some_iff, Option.map_eq_some_iff, lookup?_eq_some_iff h]
  constructor
  · rintro ⟨k, ⟨f, hf, hl⟩, g, hg, ha⟩
    rw [hplaced, hg] at hf
    obtain rfl : g.toFragment = f := Option.some.inj hf
    exact ⟨g, List.mem_of_getElem? hg, hl, ha⟩
  · rintro ⟨g, hg, hl, ha⟩
    obtain ⟨k, hk⟩ := List.mem_iff_getElem?.1 hg
    exact ⟨k, ⟨g.toFragment, by rw [hplaced, hk]; rfl, hl⟩, g, hk, ha⟩

end Tables

/-! ## Symbols of a program -/

/-- The fragments of the code segment before those of the data segment. -/
def Fragment.arrange (fragments : List Fragment) : List Fragment :=
  fragments.filter (·.isIn .code) ++ fragments.filter (·.isIn .data)

/-- The symbol that a fragment defines. -/
def LinkedFragment.symbol? (u : LinkedFragment) : Option Symbol :=
  u.label.map fun l => ⟨l, u.address, u.line⟩

theorem Program.perm_inOrder (p : Program) : p.inOrder.Perm p.fragments :=
  perm_filter_segments (fun u : LinkedFragment => u.segment) p.fragments

/-- Of the two parts of the order, only the one of the segment is left. -/
theorem Program.filter_inOrder (p : Program) (segment : Segment) :
    p.inOrder.filter (·.isIn segment) = p.fragments.filter (·.isIn segment) := by
  unfold inOrder
  rw [List.filter_append, List.filter_filter, List.filter_filter]
  cases segment <;> simp +contextual [Fragment.isIn]

namespace Program.Links

variable {p : Program} {base : Int64} {table : SymbolTable Nat} {fragments : List Fragment}

theorem map_toFragment (h : p.Links base table fragments) :
    p.fragments.map (·.toFragment) = fragments := by
  rw [← toFragment_place fragments, ← h.placed, List.map_map]
  rfl

theorem map_toFragment_inOrder (h : p.Links base table fragments) :
    p.inOrder.map (·.toFragment) = Fragment.arrange fragments := by
  unfold Fragment.arrange
  rw [← h.map_toFragment, List.filter_map, List.filter_map, ← List.map_append]
  rfl

theorem contiguous_inOrder (h : p.Links base table fragments) :
    Contiguous 0 (p.inOrder.map (·.toPlacedFragment)) := by
  rw [h.map_inOrder]
  exact contiguous_place fragments

theorem length_image_eq_size (h : p.Links base table fragments) : p.image.length = p.size := by
  have hsize : p.size = totalLength (p.fragments.map (·.toPlacedFragment)) := by
    unfold size totalLength
    rw [List.flatMap_map]
  rw [hsize, h.placed, h.length_image]

theorem length_image_eq_sum (h : p.Links base table fragments) :
    p.image.length = (p.inOrder.map (·.length)).sum := by
  unfold image
  rw [List.length_flatMap]
  congr 1
  apply List.map_congr_left
  intro u hu
  exact h.length_code (h.mem_inOrder hu).1

variable (htable : declareFrom .empty 0 fragments = .ok table)

include htable

theorem address?_eq_some_iff (h : p.Links base table fragments) {l : Label} {a : Nat} :
    p.address? l = some a ↔ ∃ u ∈ p.inOrder, u.label = some l ∧ u.address = a := by
  rw [h.address?_eq, Assembly.address?_eq_some_iff htable, ← h.placed]
  constructor
  · rintro ⟨f, hf, hl, ha⟩
    obtain ⟨u, hu, rfl⟩ := List.mem_map.1 hf
    exact ⟨u, p.perm_inOrder.mem_iff.2 hu, hl, ha⟩
  · rintro ⟨u, hu, hl, ha⟩
    exact ⟨u.toPlacedFragment, List.mem_map_of_mem (p.perm_inOrder.mem_iff.1 hu), hl, ha⟩

theorem symbol?_of_label (h : p.Links base table fragments) {u : LinkedFragment}
    (hu : u ∈ p.fragments) {l : Label} (hl : u.label = some l) :
    p.symbol? l = some ⟨l, u.address, u.line⟩ := by
  obtain ⟨k, hk⟩ := List.mem_iff_getElem?.1 hu
  have hfragment : fragments[k]? = some u.toFragment := by
    rw [← h.map_toFragment, List.getElem?_map, hk]
    rfl
  unfold Program.symbol?
  rw [h.table_eq, (lookup?_eq_some_iff htable).2 ⟨_, hfragment, hl⟩, Option.bind_some, hk]
  rfl

/-- There is one symbol for each fragment with a label. -/
theorem perm_symbols (h : p.Links base table fragments) :
    p.symbols.Perm (p.inOrder.filterMap LinkedFragment.symbol?) := by
  have hlabels : p.table.labels.Perm (p.fragments.filterMap (·.label)) := by
    have hkeys := perm_keys htable
    rw [← h.map_toFragment, List.filterMap_map] at hkeys
    rw [h.table_eq]
    exact (List.mergeSort_perm _ _).trans hkeys
  have hsymbols : (p.fragments.filterMap (·.label)).filterMap p.symbol? =
      p.fragments.filterMap LinkedFragment.symbol? := by
    rw [List.filterMap_filterMap]
    apply List.filterMap_congr
    intro u hu
    unfold LinkedFragment.symbol?
    cases hl : u.label with
    | none => rfl
    | some l => exact h.symbol?_of_label htable hu hl
  have hperm := hlabels.filterMap p.symbol?
  rw [hsymbols] at hperm
  exact hperm.trans (p.perm_inOrder.symm.filterMap _)

/-- The symbols are in the order of their names, and no name comes twice. -/
theorem pairwise_symbols (h : p.Links base table fragments) :
    p.symbols.Pairwise fun a b => Text.Precedes a.name b.name := by
  have hname {l : Label} {s : Symbol} (hs : p.symbol? l = some s) : s.name = l := by
    obtain ⟨k, -, hs⟩ := Option.bind_eq_some_iff.1 hs
    obtain ⟨u, -, rfl⟩ := Option.map_eq_some_iff.1 hs
    rfl
  have hsorted : p.table.labels.Pairwise fun l m => Text.le l m = true :=
    List.pairwise_mergeSort Text.le_trans Text.le_total _
  have hnodup : p.table.labels.Nodup := by
    rw [h.table_eq]
    exact (List.mergeSort_perm _ _).nodup_iff.2 (keys_of_declareFrom htable List.nodup_nil).2
  refine List.Pairwise.filterMap _ ?_ (hsorted.and hnodup)
  rintro l m ⟨hle, hne⟩ a ha b hb
  rw [hname ha, hname hb]
  exact ((Text.le_iff l m).1 hle).resolve_left hne

end Program.Links

/-! ## Statements in the order of the image -/

/-- The statements of the code segment before those of the data segment. -/
def Statement.arrange (found : List Statement) : List Statement :=
  found.filter (fun s => s.segment = .code) ++ found.filter (fun s => s.segment = .data)

theorem Statement.Yields.segment_eq {s : Statement} {f : Fragment} (h : s.Yields f) :
    f.segment = s.segment := by
  obtain ⟨label, body, -, hencode⟩ := h
  obtain ⟨slots, -, rfl⟩ := Statement.encode_eq_ok_iff.1 hencode
  rfl

theorem Statement.Yields.line_eq {s : Statement} {f : Fragment} (h : s.Yields f) :
    f.line = s.line := by
  obtain ⟨label, body, -, hencode⟩ := h
  obtain ⟨slots, -, rfl⟩ := Statement.encode_eq_ok_iff.1 hencode
  rfl

theorem forall₂_filter_segment {found : List Statement} {fragments : List Fragment}
    (h : List.Forall₂ Statement.Yields found fragments) (segment : Segment) :
    List.Forall₂ Statement.Yields (found.filter fun s => s.segment = segment)
      (fragments.filter (·.isIn segment)) := by
  refine List.rel_filter (fun s f hyields => ?_) h
  simp only [Fragment.isIn, hyields.segment_eq]

theorem forall₂_arrange {found : List Statement} {fragments : List Fragment}
    (h : List.Forall₂ Statement.Yields found fragments) :
    List.Forall₂ Statement.Yields (Statement.arrange found) (Fragment.arrange fragments) :=
  List.rel_append (forall₂_filter_segment h .code) (forall₂_filter_segment h .data)

/-- Source lines are numbered upwards. -/
theorem pairwise_number (comment : Text) (segment : Option Segment) (n : Nat)
    (lines : List Text) :
    (∀ l ∈ SourceLine.readFrom comment segment n lines, n ≤ l.number) ∧
      (SourceLine.readFrom comment segment n lines).Pairwise fun l m => l.number < m.number := by
  induction lines generalizing segment n with
  | nil => exact ⟨nofun, .nil⟩
  | cons line lines ih =>
    have hlater (segment' : Option Segment) :
        ∀ l ∈ SourceLine.readFrom comment segment' (n + 1) lines, n ≤ l.number :=
      fun l hl => Nat.le_of_succ_le ((ih segment' (n + 1)).1 l hl)
    unfold SourceLine.readFrom
    dsimp only
    split
    · exact ⟨hlater segment, (ih segment (n + 1)).2⟩
    · split
      · exact ⟨hlater _, (ih _ (n + 1)).2⟩
      · refine ⟨List.forall_mem_cons.2 ⟨Nat.le_refl n, hlater segment⟩, ?_⟩
        exact .cons (fun l hl => (ih segment (n + 1)).1 l hl) (ih segment (n + 1)).2

theorem pairwise_line (comment source : Text) :
    (statements comment source).Pairwise fun s t => s.line < t.line := by
  refine List.Pairwise.filterMap _ ?_ (pairwise_number comment none 1 _).2
  intro l m hlt s hs t ht
  obtain ⟨segment, -, rfl⟩ := Option.map_eq_some_iff.1 hs
  obtain ⟨segment', -, rfl⟩ := Option.map_eq_some_iff.1 ht
  exact hlt

/-- Fragments that are not empty have addresses that go up. -/
theorem Contiguous.pairwise_address {start : Nat} {fs : List PlacedFragment}
    (h : Contiguous start fs) (hpos : ∀ f ∈ fs, 0 < f.length) :
    fs.Pairwise fun f g => f.address < g.address := by
  induction fs generalizing start with
  | nil => exact .nil
  | cons f fs ih =>
    obtain ⟨hf, hrest⟩ := h
    rw [List.forall_mem_cons] at hpos
    refine .cons (fun g hg => ?_) (ih hrest hpos.2)
    have hbounds := hrest.bounds hg
    have hfirst := hpos.1
    omega

/-! ## The invariant -/

/-- What holds of a program with the statements `found`. -/
structure Program.Consistent (p : Program) (found : List Statement) : Prop where
  /-- One fragment for each statement, the code before the data. -/
  fragments : List.Forall₂ Statement.Yields (Statement.arrange found)
    (p.inOrder.map (·.toFragment))
  /-- A segment is in the order of the source text. -/
  sourceOrder : ∀ segment, (p.inOrder.filter (·.isIn segment)).Pairwise fun u v => u.line < v.line
  nonempty : ∀ u ∈ p.inOrder, 0 < u.length
  contiguous : Contiguous 0 (p.inOrder.map (·.toPlacedFragment))
  increasing : p.inOrder.Pairwise fun u v => u.address < v.address
  size_eq : p.size = p.image.length
  length_eq : p.image.length = (p.inOrder.map (·.length)).sum
  sorted : p.symbols.Pairwise fun a b => Text.Precedes a.name b.name
  /-- One symbol for each fragment with a label, with the address and the line of the fragment. -/
  symbols : p.symbols.Perm (p.inOrder.filterMap LinkedFragment.symbol?)
  addresses : ∀ l a, p.address? l = some a ↔ ∃ s ∈ p.symbols, s.name = l ∧ s.address = a
  injective : ∀ l m a, p.address? l = some a → p.address? m = some a → l = m
  bounded : ∀ l a, p.address? l = some a → a < p.size

namespace Program.Links

variable {p : Program} {base : Int64} {table : SymbolTable Nat} {fragments : List Fragment}
  {found : List Statement}

theorem exists_yields (h : p.Links base table fragments)
    (hyields : List.Forall₂ Statement.Yields found fragments) {u : LinkedFragment}
    (hu : u ∈ p.inOrder) : ∃ s ∈ found, s.Yields u.toFragment := by
  apply Outcome.exists_of_mem_right hyields
  rw [← h.map_toFragment]
  exact List.mem_map_of_mem (h.mem_inOrder hu).1

theorem length_pos (h : p.Links base table fragments)
    (hyields : List.Forall₂ Statement.Yields found fragments) {u : LinkedFragment}
    (hu : u ∈ p.inOrder) : 0 < u.length := by
  obtain ⟨s, -, hs⟩ := h.exists_yields hyields hu
  exact hs.length_pos

theorem pairwise_address (h : p.Links base table fragments)
    (hyields : List.Forall₂ Statement.Yields found fragments) :
    p.inOrder.Pairwise fun u v => u.address < v.address := by
  have hplaced := h.contiguous_inOrder.pairwise_address
    (List.forall_mem_map.2 fun u hu => h.length_pos hyields hu)
  exact (List.pairwise_map (f := fun u : LinkedFragment => u.toPlacedFragment)).1 hplaced

/-- Two fragments at one address are the same. -/
theorem eq_of_address_eq (h : p.Links base table fragments)
    (hyields : List.Forall₂ Statement.Yields found fragments) {u v : LinkedFragment}
    (hu : u ∈ p.inOrder) (hv : v ∈ p.inOrder) (huv : u.address = v.address) : u = v := by
  have hnodup : (p.inOrder.map (·.address)).Nodup :=
    List.pairwise_map.2 ((h.pairwise_address hyields).imp fun hlt => Nat.ne_of_lt hlt)
  exact List.inj_on_of_nodup_map hnodup hu hv huv

theorem pairwise_line (h : p.Links base table fragments)
    (hyields : List.Forall₂ Statement.Yields found fragments)
    (hfound : found.Pairwise fun s t => s.line < t.line) (segment : Segment) :
    (p.inOrder.filter (·.isIn segment)).Pairwise fun u v => u.line < v.line := by
  have hlines : fragments.map (·.line) = found.map (·.line) :=
    (Outcome.map_eq_map_of_forall₂ (hyields.imp fun _ _ hs => hs.line_eq.symm)).symm
  have hall : p.fragments.Pairwise fun u v => u.line < v.line := by
    rw [← h.map_toFragment, List.map_map] at hlines
    rw [← List.pairwise_map (f := fun u : LinkedFragment => u.line) (R := (· < ·))]
    change (List.map ((·.line) ∘ (·.toFragment)) p.fragments).Pairwise (· < ·)
    rw [hlines]
    exact List.pairwise_map.2 hfound
  rw [p.filter_inOrder]
  exact hall.filter _

end Program.Links

/-- Fragments, image and symbols of an assembled program agree with each other and with the
statements of the source text. -/
theorem assemble_consistent {config : Config} {source : Text} {p : Program}
    (h : assemble config source = .ok p) : p.Consistent (statements config.comment source) := by
  obtain ⟨table, fragments, hread, hlinks⟩ := assemble_eq_ok_iff.1 h
  obtain ⟨hyields, htable⟩ := readFrom_eq_ok_iff.1 hread
  have haddress {l : Label} {a : Nat} : p.address? l = some a ↔
      ∃ u ∈ p.inOrder, u.label = some l ∧ u.address = a :=
    hlinks.address?_eq_some_iff htable
  have hsymbols := hlinks.perm_symbols htable
  refine
    { fragments := ?_
      sourceOrder := hlinks.pairwise_line hyields (pairwise_line _ _)
      nonempty := fun u hu => hlinks.length_pos hyields hu
      contiguous := hlinks.contiguous_inOrder
      increasing := hlinks.pairwise_address hyields
      size_eq := hlinks.length_image_eq_size.symm
      length_eq := hlinks.length_image_eq_sum
      sorted := hlinks.pairwise_symbols htable
      symbols := hsymbols
      addresses := ?_
      injective := ?_
      bounded := ?_ }
  · rw [hlinks.map_toFragment_inOrder]
    exact forall₂_arrange hyields
  · intro l a
    rw [haddress]
    constructor
    · rintro ⟨u, hu, hl, rfl⟩
      have hsymbol : u.symbol? = some ⟨l, u.address, u.line⟩ := by
        rw [LinkedFragment.symbol?, hl]
        rfl
      exact ⟨_, hsymbols.mem_iff.2 (List.mem_filterMap.2 ⟨u, hu, hsymbol⟩), rfl, rfl⟩
    · rintro ⟨s, hs, rfl, rfl⟩
      obtain ⟨u, hu, hus⟩ := List.mem_filterMap.1 (hsymbols.mem_iff.1 hs)
      obtain ⟨l, hl, rfl⟩ := Option.map_eq_some_iff.1 hus
      exact ⟨u, hu, hl, rfl⟩
  · intro l m a hl hm
    obtain ⟨u, hu, hul, hua⟩ := haddress.1 hl
    obtain ⟨v, hv, hvm, hva⟩ := haddress.1 hm
    obtain rfl : u = v := hlinks.eq_of_address_eq hyields hu hv (hua.trans hva.symm)
    exact Option.some.inj (hul.symm.trans hvm)
  · intro l a ha
    obtain ⟨u, hu, -, rfl⟩ := haddress.1 ha
    have hstop := hlinks.stop_le (hlinks.mem_inOrder hu).2
    have hpos := hlinks.length_pos hyields hu
    rw [hlinks.length_image_eq_size] at hstop
    unfold PlacedFragment.stop at hstop
    omega

/-- Both segments, each in two sections, with labels in both and the data first. -/
def sections : Text :=
  ".data\nz: pair 5, b\n.code\nb: jmp a\n.data\nd: tryte z\n.code\na: restart".toList

/-- In the image the labels are neither in the order of the lines nor in that of their names. -/
theorem sections_consistent :
    ∃ p, assemble .default sections = .ok p ∧ p.Consistent (statements [';'] sections) ∧
      p.inOrder.filterMap LinkedFragment.symbol? =
        [⟨['b'], 0, 4⟩, ⟨['a'], 4, 8⟩, ⟨['z'], 7, 2⟩, ⟨['d'], 11, 6⟩] := by
  have hsymbols : (assemble .default sections).map
      (fun p => p.inOrder.filterMap LinkedFragment.symbol?) =
        .ok [⟨['b'], 0, 4⟩, ⟨['a'], 4, 8⟩, ⟨['z'], 7, 2⟩, ⟨['d'], 11, 6⟩] := by
    decide +kernel
  obtain ⟨p, hp, hvalues⟩ := Outcome.map_eq_ok.1 hsymbols
  exact ⟨p, hp, assemble_consistent hp, hvalues⟩

end Assembly

end BalancedTernary
