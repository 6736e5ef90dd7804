import BalancedTernary.Proofs.Symbols

/-!
# Interleaved sections

It does not matter how the sections of a source text are cut up and mixed. Image and symbols depend
on two lists only, the texts of the code statements and those of the data statements.
-/

namespace BalancedTernary.Assembly

/-- The texts of the statements of a segment. -/
def segmentTexts (segment : Segment) (found : List Statement) : List Text :=
  (found.filter fun s => s.segment = segment).map (·.text)

/-! ## Alike up to line numbers -/

/-- The statements differ at most in their lines. -/
structure Statement.Alike (s t : Statement) : Prop where
  segment : s.segment = t.segment
  text : s.text = t.text

/-- The fragments differ at most in their lines and in how their trytes were written. -/
structure Fragment.Alike (f g : Fragment) : Prop where
  segment : f.segment = g.segment
  label : f.label = g.label
  trytes : f.trytes = g.trytes

structure PlacedFragment.Alike (f g : PlacedFragment) : Prop
    extends f.toFragment.Alike g.toFragment where
  address : f.address = g.address

structure LinkedFragment.Alike (u v : LinkedFragment) : Prop
    extends placed : u.toPlacedFragment.Alike v.toPlacedFragment where
  code : u.code = v.code

theorem forall₂_alike_statements {found found' : List Statement}
    (hcode : segmentTexts .code found = segmentTexts .code found')
    (hdata : segmentTexts .data found = segmentTexts .data found') :
    List.Forall₂ Statement.Alike (Statement.arrange found) (Statement.arrange found') := by
  -- In a segment, the text is all there is to say.
  have hsegment (segment : Segment) (xs : List Statement) :
      (xs.filter fun s => s.segment = segment).map (fun s => (s.segment, s.text)) =
        (segmentTexts segment xs).map fun text => (segment, text) := by
    unfold segmentTexts
    rw [List.map_map]
    apply List.map_congr_left
    intro s hs
    rw [List.mem_filter, decide_eq_true_eq] at hs
    simp [hs.2]
  have harrange : (Statement.arrange found).map (fun s => (s.segment, s.text)) =
      (Statement.arrange found').map fun s => (s.segment, s.text) := by
    unfold Statement.arrange
    simp only [List.map_append, hsegment, hcode, hdata]
  exact (Outcome.forall₂_of_map_eq harrange).imp fun _ _ h => ⟨(Prod.mk.inj h).1, (Prod.mk.inj h).2⟩

/-! ## Fragments -/

namespace Statement.Alike

variable {s t : Statement} {f g : Fragment}

theorem split_eq (h : s.Alike t) : s.split = t.split := by
  unfold split
  rw [h.text]

theorem assemble_eq (h : s.Alike t) (label : Option Label) (body : Text) :
    s.assemble label body = t.assemble label body := by
  unfold Statement.assemble
  rw [h.segment]

theorem exists_yields (h : s.Alike t) (hf : s.Yields f) : ∃ g, t.Yields g := by
  obtain ⟨label, body, hsplit, hencode⟩ := hf
  obtain ⟨trytes, htrytes, rfl⟩ := Statement.encode_eq_ok_iff.1 hencode
  rw [h.split_eq] at hsplit
  rw [h.assemble_eq] at htrytes
  exact ⟨_, label, body, hsplit, Statement.encode_eq_ok_iff.2 ⟨trytes, htrytes, rfl⟩⟩

theorem alike_of_yields (h : s.Alike t) (hf : s.Yields f) (hg : t.Yields g) : f.Alike g := by
  obtain ⟨label, body, hsplit, hencode⟩ := hf
  obtain ⟨label', body', hsplit', hencode'⟩ := hg
  rw [h.split_eq, hsplit'] at hsplit
  obtain ⟨rfl, rfl⟩ := Prod.mk.inj (Except.ok.inj hsplit)
  obtain ⟨trytes, htrytes, rfl⟩ := Statement.encode_eq_ok_iff.1 hencode
  obtain ⟨trytes', htrytes', rfl⟩ := Statement.encode_eq_ok_iff.1 hencode'
  rw [h.assemble_eq, htrytes'] at htrytes
  exact ⟨h.segment, rfl, (Except.ok.inj htrytes).symm⟩

end Statement.Alike

theorem Statement.mem_arrange {found : List Statement} {s : Statement} :
    s ∈ Statement.arrange found ↔ s ∈ found :=
  (perm_filter_segments Statement.segment found).mem_iff

section Fragments

variable {found found' : List Statement} {fragments fragments' : List Fragment}

theorem exists_forall₂_yields
    (halike : List.Forall₂ Statement.Alike (Statement.arrange found) (Statement.arrange found'))
    (hyields : List.Forall₂ Statement.Yields found fragments) :
    ∃ fragments', List.Forall₂ Statement.Yields found' fragments' := by
  have hstep : ∀ t ∈ found', ∀ t', t = t' → ∃ g, t'.Yields g ∧ t.Yields g := by
    rintro t ht _ rfl
    obtain ⟨s, hs, hst⟩ := Outcome.exists_of_mem_right halike (Statement.mem_arrange.2 ht)
    obtain ⟨f, -, hf⟩ := Outcome.exists_of_mem_left hyields (Statement.mem_arrange.1 hs)
    obtain ⟨g, hg⟩ := hst.exists_yields hf
    exact ⟨g, hg, hg⟩
  obtain ⟨fragments', -, hfragments'⟩ :=
    Outcome.exists_forall₂ (List.forall₂_refl found') hstep
  exact ⟨fragments', hfragments'⟩

theorem forall₂_alike_fragments
    (halike : List.Forall₂ Statement.Alike (Statement.arrange found) (Statement.arrange found'))
    (hyields : List.Forall₂ Statement.Yields found fragments)
    (hyields' : List.Forall₂ Statement.Yields found' fragments') :
    List.Forall₂ Fragment.Alike (Fragment.arrange fragments) (Fragment.arrange fragments') := by
  have hright : List.Forall₂ (fun s g => ∃ t, s.Alike t ∧ t.Yields g) (Statement.arrange found)
      (Fragment.arrange fragments') :=
    Outcome.forall₂_comp (fun _ t _ hst hg => ⟨t, hst, hg⟩) halike (forall₂_arrange hyields')
  refine Outcome.forall₂_comp (R := flip Statement.Yields) ?_ (forall₂_arrange hyields).flip hright
  rintro f s g hf ⟨t, hst, hg⟩
  exact hst.alike_of_yields hf hg

end Fragments

/-! ## Addresses -/

/-- Fragments that are alike get the same addresses, since they have the same lengths. -/
theorem Contiguous.forall₂_alike {start : Nat} {fs gs : List PlacedFragment}
    (hfs : Contiguous start fs) (hgs : Contiguous start gs)
    (h : List.Forall₂ (fun f g => f.toFragment.Alike g.toFragment) fs gs) :
    List.Forall₂ PlacedFragment.Alike fs gs := by
  induction h generalizing start with
  | nil => exact .nil
  | @cons f g fs gs hfg _ ih =>
    obtain ⟨hf, hfs⟩ := hfs
    obtain ⟨hg, hgs⟩ := hgs
    have hlength : f.length = g.length := congrArg List.length hfg.trytes
    refine .cons ⟨hfg, hf.trans hg.symm⟩ (ih hfs ?_)
    rw [hlength]
    exact hgs

theorem toFragment_arrange_place (fragments : List Fragment) :
    (arrange (place fragments)).map (·.toFragment) = Fragment.arrange fragments := by
  unfold arrange Fragment.arrange
  conv_rhs => rw [← toFragment_place fragments, List.filter_map, List.filter_map]
  rw [List.map_append]
  rfl

theorem perm_arrange (fragments : List Fragment) :
    (Fragment.arrange fragments).Perm fragments :=
  perm_filter_segments Fragment.segment fragments

section Addresses

variable {fragments fragments' : List Fragment} {table table' : SymbolTable Nat}
  (halike : List.Forall₂ Fragment.Alike (Fragment.arrange fragments) (Fragment.arrange fragments'))

include halike

theorem forall₂_alike_place :
    List.Forall₂ PlacedFragment.Alike (arrange (place fragments))
      (arrange (place fragments')) := by
  apply (contiguous_place fragments).forall₂_alike (contiguous_place fragments')
  rw [← toFragment_arrange_place, ← toFragment_arrange_place] at halike
  exact List.forall₂_map_right_iff.1 (List.forall₂_map_left_iff.1 halike)

/-- The labels are the same up to order, so none of them is defined twice. -/
theorem exists_declareFrom_of_alike (htable : declareFrom .empty 0 fragments = .ok table) :
    ∃ table', declareFrom .empty 0 fragments' = .ok table' := by
  have hlabels : (Fragment.arrange fragments).filterMap (·.label) =
      (Fragment.arrange fragments').filterMap (·.label) :=
    Outcome.filterMap_eq_filterMap_of_forall₂ (halike.imp fun _ _ h => h.label)
  have hperm : (fragments.filterMap Fragment.label).Perm (fragments'.filterMap Fragment.label) :=
    ((perm_arrange fragments).symm.filterMap _).trans
      (hlabels ▸ (perm_arrange fragments').filterMap _)
  exact exists_declareFrom (fun _ _ => rfl) (hperm.nodup_iff.1 (nodup_labels htable)) 0

theorem address?_of_alike (htable : declareFrom .empty 0 fragments = .ok table)
    (htable' : declareFrom .empty 0 fragments' = .ok table') {l : Label} {a : Nat}
    (h : Symbols.address? ⟨table, place fragments⟩ l = some a) :
    Symbols.address? ⟨table', place fragments'⟩ l = some a := by
  obtain ⟨f, hf, hl, rfl⟩ := (address?_eq_some_iff htable).1 h
  obtain ⟨g, hg, hfg⟩ :=
    Outcome.exists_of_mem_left (forall₂_alike_place halike) (mem_arrange.2 hf)
  refine (address?_eq_some_iff htable').2 ⟨g, mem_arrange.1 hg, ?_, hfg.address.symm⟩
  rw [← hfg.label]
  exact hl

end Addresses

/-- A reference that has a value keeps it when all labels keep their addresses. -/
theorem PlacedFragment.Alike.resolve {f g : PlacedFragment} (h : f.Alike g)
    {symbols symbols' : Symbols} {base : Int64} {slot : Relocatable} {t : Tryte}
    (haddress : ∀ l a, symbols.address? l = some a → symbols'.address? l = some a)
    (ht : f.resolve symbols base slot = .ok t) : g.resolve symbols' base slot = .ok t := by
  have hstop : f.stop = g.stop := by
    unfold stop Fragment.length
    rw [h.trytes, h.address]
  unfold PlacedFragment.resolve at ht ⊢
  cases slot with
  | tryte s => exact ht
  | address l =>
    dsimp only at ht ⊢
    split at ht
    · exact nomatch ht
    · rename_i target htarget
      rw [haddress l target htarget]
      exact ht
  | displacement l =>
    dsimp only at ht ⊢
    split at ht
    · exact nomatch ht
    · rename_i target htarget
      rw [haddress l target htarget, ← hstop]
      exact ht

/-! ## Programs -/

namespace Program.Links

variable {p q : Program} {base : Int64} {table table' : SymbolTable Nat}
  {fragments fragments' : List Fragment}
  (halike : List.Forall₂ Fragment.Alike (Fragment.arrange fragments) (Fragment.arrange fragments'))
  (htable : declareFrom .empty 0 fragments = .ok table)
  (htable' : declareFrom .empty 0 fragments' = .ok table')

include halike htable htable'

theorem exists_of_alike (h : p.Links base table fragments) :
    ∃ q : Program, q.Links base table' fragments' := by
  apply exists_links
  intro g hg
  obtain ⟨f, hf, hfg⟩ :=
    Outcome.exists_of_mem_right (forall₂_alike_place halike) (mem_arrange.2 hg)
  rw [mem_arrange, ← h.placed] at hf
  obtain ⟨u, hu, rfl⟩ := List.mem_map.1 hf
  -- The trytes of the fragment that is alike will do.
  refine ⟨u.code, ?_⟩
  rw [← hfg.trytes]
  exact (h.resolved u hu).imp fun _ _ ht =>
    hfg.resolve (fun _ _ ha => address?_of_alike halike htable htable' ha) ht

theorem forall₂_alike (hp : p.Links base table fragments) (hq : q.Links base table' fragments') :
    List.Forall₂ LinkedFragment.Alike p.inOrder q.inOrder := by
  have hplaced := forall₂_alike_place halike
  rw [← hp.map_inOrder, ← hq.map_inOrder, List.forall₂_map_left_iff,
    List.forall₂_map_right_iff] at hplaced
  refine Outcome.forall₂_imp_of_mem (fun u hu v hv huv => ⟨huv, ?_⟩) hplaced
  have hcode := hp.resolved u (hp.mem_inOrder hu).1
  have hcode' := hq.resolved v (hq.mem_inOrder hv).1
  rw [huv.trytes] at hcode
  -- Both are read off the same trytes, with the same addresses.
  refine List.right_unique_forall₂' ?_ (hcode.imp fun _ _ ht => ?_) hcode'
  · intro slot t t' ht ht'
    exact Except.ok.inj (ht.symm.trans ht')
  · exact huv.resolve (fun _ _ ha => address?_of_alike halike htable htable' ha) ht

end Program.Links

/-- The symbols without the lines that define them. -/
def Program.symbolAddresses (p : Program) : List (Label × Nat) :=
  p.symbols.map fun s => (s.name, s.address)

/-- The label of a fragment with its address. -/
def LinkedFragment.labelAddress? (u : LinkedFragment) : Option (Label × Nat) :=
  u.label.map fun l => (l, u.address)

namespace Program.Links

variable {p q : Program} {base base' : Int64} {table table' : SymbolTable Nat}
  {fragments fragments' : List Fragment}

theorem perm_symbolAddresses (h : p.Links base table fragments)
    (htable : declareFrom .empty 0 fragments = .ok table) :
    p.symbolAddresses.Perm (p.inOrder.filterMap LinkedFragment.labelAddress?) := by
  have hsymbols := (h.perm_symbols htable).map fun s : Symbol => (s.name, s.address)
  rw [List.map_filterMap] at hsymbols
  simp only [LinkedFragment.symbol?, Option.map_map] at hsymbols
  exact hsymbols

theorem pairwise_symbolAddresses (h : p.Links base table fragments)
    (htable : declareFrom .empty 0 fragments = .ok table) :
    p.symbolAddresses.Pairwise fun a b => Text.Precedes a.1 b.1 :=
  List.pairwise_map.2 (h.pairwise_symbols htable)

theorem symbolAddresses_eq (hp : p.Links base table fragments)
    (htable : declareFrom .empty 0 fragments = .ok table) (hq : q.Links base' table' fragments')
    (htable' : declareFrom .empty 0 fragments' = .ok table')
    (halike : List.Forall₂ LinkedFragment.Alike p.inOrder q.inOrder) :
    p.symbolAddresses = q.symbolAddresses := by
  have hsame : p.inOrder.filterMap LinkedFragment.labelAddress? =
      q.inOrder.filterMap LinkedFragment.labelAddress? := by
    apply Outcome.filterMap_eq_filterMap_of_forall₂
    refine halike.imp fun u v h => ?_
    unfold LinkedFragment.labelAddress?
    rw [h.label, h.address]
  have hperm := (hp.perm_symbolAddresses htable).trans
    (hsame ▸ (hq.perm_symbolAddresses htable').symm)
  -- The order of the names leaves no choice.
  apply hperm.eq_of_pairwise _ (hp.pairwise_symbolAddresses htable)
    (hq.pairwise_symbolAddresses htable')
  intro a b _ _ hab hba
  exact absurd hba hab.asymm

end Program.Links

theorem exists_assemble_of_alike {config : Config} {source source' : Text}
    (halike : List.Forall₂ Statement.Alike
      (Statement.arrange (statements config.comment source))
      (Statement.arrange (statements config.comment source')))
    {p : Program} (hp : assemble config source = .ok p) :
    ∃ q, assemble config source' = .ok q := by
  obtain ⟨table, fragments, hread, hlinks⟩ := assemble_eq_ok_iff.1 hp
  obtain ⟨hyields, htable⟩ := readFrom_eq_ok_iff.1 hread
  obtain ⟨fragments', hyields'⟩ := exists_forall₂_yields halike hyields
  have hfragments := forall₂_alike_fragments halike hyields hyields'
  obtain ⟨table', htable'⟩ := exists_declareFrom_of_alike hfragments htable
  obtain ⟨q, hq⟩ := hlinks.exists_of_alike hfragments htable htable'
  exact ⟨q, assemble_eq_ok_iff.2
    ⟨table', fragments', readFrom_eq_ok_iff.2 ⟨hyields', htable'⟩, hq⟩⟩

/-- Two source texts whose code statements have the same texts, and whose data statements have the
same texts, both assemble or both fail, and what they assemble to has the same image and symbols. -/
theorem assemble_of_segmentTexts_eq (config : Config) {source source' : Text}
    (h : ∀ segment, segmentTexts segment (statements config.comment source) =
      segmentTexts segment (statements config.comment source')) :
    ((∃ p, assemble config source = .ok p) ↔ ∃ q, assemble config source' = .ok q) ∧
      ∀ p q, assemble config source = .ok p → assemble config source' = .ok q →
        p.image = q.image ∧ p.size = q.size ∧ p.symbolAddresses = q.symbolAddresses := by
  have halike := forall₂_alike_statements (h .code) (h .data)
  have halike' := forall₂_alike_statements (h .code).symm (h .data).symm
  refine ⟨⟨fun ⟨p, hp⟩ => ?_, fun ⟨q, hq⟩ => ?_⟩, fun p q hp hq => ?_⟩
  · exact exists_assemble_of_alike halike hp
  · exact exists_assemble_of_alike halike' hq
  · obtain ⟨table, fragments, hread, hlinks⟩ := assemble_eq_ok_iff.1 hp
    obtain ⟨table', fragments', hread', hlinks'⟩ := assemble_eq_ok_iff.1 hq
    obtain ⟨hyields, htable⟩ := readFrom_eq_ok_iff.1 hread
    obtain ⟨hyields', htable'⟩ := readFrom_eq_ok_iff.1 hread'
    have hlinked := hlinks.forall₂_alike (forall₂_alike_fragments halike hyields hyields') htable
      htable' hlinks'
    have himage : p.image = q.image := by
      have hmap := Outcome.map_eq_map_of_forall₂ (f := LinkedFragment.code)
        (g := LinkedFragment.code) (hlinked.imp fun _ _ h => h.code)
      simpa [Program.image, List.flatMap_def] using congrArg List.flatten hmap
    refine ⟨himage, ?_, hlinks.symbolAddresses_eq htable hlinks' htable' hlinked⟩
    rw [← hlinks.length_image_eq_size, ← hlinks'.length_image_eq_size, himage]

/-- `sections` with one section for each segment, other comments and other blanks. -/
def gathered : Text :=
  "; two parts\n.code\n b: jmp a ; forward\n\na: restart\n.data\nz: pair 5, b\n  d: tryte z".toList

theorem sections_gathered :
    ∃ p q, assemble .default sections = .ok p ∧ assemble .default gathered = .ok q ∧
      p.image = q.image ∧ p.size = q.size ∧ p.symbolAddresses = q.symbolAddresses := by
  have htexts : ∀ segment, segmentTexts segment (statements [';'] sections) =
      segmentTexts segment (statements [';'] gathered) := by
    intro segment
    cases segment <;> decide +kernel
  have hsections : (assemble .default sections).map (·.size) = .ok 12 := by decide +kernel
  obtain ⟨hiff, hequal⟩ := assemble_of_segmentTexts_eq .default htexts
  obtain ⟨p, hp, -⟩ := Outcome.map_eq_ok.1 hsections
  obtain ⟨q, hq⟩ := hiff.1 ⟨p, hp⟩
  exact ⟨p, q, hp, hq, hequal p q hp hq⟩

end BalancedTernary.Assembly
