import BalancedTernary.Proofs.FirstFault
import BalancedTernary.Proofs.Relocation
import BalancedTernary.Proofs.Soundness

/-!
# Labels as data

A label among the values of a data directive stands for its address. It takes as many trytes as the
width of the directive says, but the address is put into the last of them alone. So a label can be
linked exactly when its address fits one tryte, however wide the directive is.
-/

namespace BalancedTernary

theorem Word.value_replicate_zero_append (m : Nat) (w : Word) :
    Word.value (List.replicate m Tryte.zero ++ w) = w.value := by
  induction m with
  | zero => rfl
  | succ m ih =>
    have hzero : Trit.value Tryte.zero.trits = 0 := by decide
    rw [← ih, List.replicate_succ, List.cons_append, value, trits_cons, Trit.value_append, hzero,
      mul_zero, zero_add, value]

theorem Word.toInt64_replicate_zero_append (m : Nat) (w : Word) :
    Word.toInt64 (List.replicate m Tryte.zero ++ w) = w.toInt64 := by
  rw [toInt64_eq_ofInt_value, value_replicate_zero_append, toInt64_eq_ofInt_value]

theorem Word.toInt64_singleton (t : Tryte) : Word.toInt64 [t] = Int64.ofInt t.toInt := by
  rw [toInt64_eq_ofInt_value, value_singleton]

namespace Assembly

/-! ## Directives -/

/-- Parts of one length are found in the list that they make up. -/
theorem take_drop_flatten {α : Type} {n k : Nat} {parts : List (List α)} {part : List α}
    (hlen : ∀ part ∈ parts, part.length = n) (hk : parts[k]? = some part) :
    (parts.flatten.drop (n * k)).take n = part := by
  induction parts generalizing k with
  | nil => cases hk
  | cons first parts ih =>
    rw [List.forall_mem_cons] at hlen
    rw [List.flatten_cons]
    cases k with
    | zero =>
      obtain rfl : first = part := Option.some.inj hk
      rw [Nat.mul_zero, List.drop_zero, ← hlen.1, List.take_left]
    | succ k =>
      rw [Nat.mul_succ, Nat.add_comm, ← List.drop_drop, ← hlen.1, List.drop_left, hlen.1]
      exact ih hlen.2 hk

namespace Data

variable {body value : Text} {w : Width} {n : Nat} {slots : List Relocatable}

theorem encodeValue_of_isName (hw : w.trytes.toInt = n) (hname : Label.isName value = true)
    (h : encodeValue body w value = .ok slots) :
    slots = List.replicate (n - 1) (.tryte .zero) ++ [.address value] := by
  unfold encodeValue at h
  rw [hname] at h
  split at h
  · cases h
  · rw [if_pos rfl, hw] at h
    exact (Except.ok.inj h).symm

/-- A value refers to a label only by being one. -/
theorem isName_of_label? {slot : Relocatable} {l : Label}
    (h : encodeValue body w value = .ok slots) (hslot : slot ∈ slots)
    (hl : slot.label? = some l) :
    slot = .address l ∧ value = l ∧ Label.isName l = true := by
  unfold encodeValue at h
  split at h
  · cases h
  · split at h
    · rename_i hname
      rw [← Except.ok.inj h, List.mem_append] at hslot
      rcases hslot with hslot | hslot
      · rw [List.eq_of_mem_replicate hslot] at hl
        cases hl
      · rw [List.eq_of_mem_singleton hslot] at hl ⊢
        obtain rfl : value = l := Option.some.inj hl
        exact ⟨rfl, rfl, hname⟩
    · split at h
      · cases h
      · rw [← Except.ok.inj h] at hslot
        obtain ⟨t, -, rfl⟩ := List.mem_map.1 hslot
        cases hl

end Data

/-- The value `k` of the fragment, which is a data directive of width `w`, is the label `l`. -/
def Fragment.HasLabelValue (f : Fragment) (w : Width) (k : Nat) (l : Label) : Prop :=
  f.segment = .data ∧ ∃ type values, Text.fields isSeparator f.source = type :: values ∧
    Width.ofName? type = some w ∧ values[k]? = some l ∧ Label.isName l = true

section Fragments

variable {f : Fragment} {w : Width} {n k : Nat} {l : Label}

theorem Statement.Yields.assemble_data {s : Statement} (h : s.Yields f)
    (hdata : f.segment = .data) : Data.assemble f.source = .ok f.trytes := by
  obtain ⟨label, body, -, hencode⟩ := h
  obtain ⟨trytes, htrytes, rfl⟩ := Statement.encode_eq_ok_iff.1 hencode
  rwa [Statement.assemble_of_data hdata] at htrytes

theorem Fragment.HasLabelValue.slots (h : f.HasLabelValue w k l)
    (hf : Data.assemble f.source = .ok f.trytes) (hw : w.trytes.toInt = n) :
    (f.trytes.drop (n * k)).take n =
      List.replicate (n - 1) (.tryte .zero) ++ [.address l] := by
  obtain ⟨-, type, values, hfields, htype, hk, hname⟩ := h
  obtain ⟨type', values', w', parts, hfields', htype', -, hparts, hflatten⟩ :=
    Data.assemble_eq_ok_iff.1 hf
  obtain ⟨rfl, rfl⟩ := List.cons.inj (hfields.symm.trans hfields')
  obtain rfl : w = w' := Option.some.inj (htype.symm.trans htype')
  obtain ⟨m, hm, hpos, hle⟩ := exists_trytes_of_ofName? htype
  obtain rfl : m = n := by omega
  have hlen : ∀ part ∈ parts, part.length = m := by
    intro part hpart
    obtain ⟨value, -, hvalue⟩ := Outcome.exists_of_mem_right hparts hpart
    exact Data.length_encodeValue hw hpos hle hvalue
  obtain ⟨part, hpart, hvalue⟩ := Outcome.forall₂_getElem? hparts hk
  rw [← hflatten, take_drop_flatten hlen hpart]
  exact Data.encodeValue_of_isName hw hname hvalue

/-- The references of a directive are its label values. -/
theorem exists_hasLabelValue (hdata : f.segment = .data)
    (hf : Data.assemble f.source = .ok f.trytes) {slot : Relocatable} (hslot : slot ∈ f.trytes)
    (hl : slot.label? = some l) : slot = .address l ∧ ∃ w k, f.HasLabelValue w k l := by
  obtain ⟨type, values, w, parts, hfields, htype, -, hparts, hflatten⟩ :=
    Data.assemble_eq_ok_iff.1 hf
  rw [← hflatten] at hslot
  obtain ⟨part, hpart, hslot⟩ := List.mem_flatten.1 hslot
  obtain ⟨value, hvalue, hencode⟩ := Outcome.exists_of_mem_right hparts hpart
  obtain ⟨haddress, rfl, hname⟩ := Data.isName_of_label? hencode hslot hl
  obtain ⟨k, hk⟩ := List.mem_iff_getElem?.1 hvalue
  exact ⟨haddress, w, k, hdata, type, values, hfields, htype, hk, hname⟩

theorem Fragment.HasLabelValue.mem_trytes (h : f.HasLabelValue w k l)
    (hf : Data.assemble f.source = .ok f.trytes) : .address l ∈ f.trytes := by
  have ⟨_, _, _, _, htype, _⟩ := h
  obtain ⟨n, hw, -, -⟩ := exists_trytes_of_ofName? htype
  have hmem : Relocatable.address l ∈ (f.trytes.drop (n * k)).take n := by
    rw [h.slots hf hw]
    exact List.mem_append_right _ List.mem_cons_self
  exact List.mem_of_mem_drop (List.mem_of_mem_take hmem)

end Fragments

/-- Zeros stay zeros, and the label becomes a tryte. -/
theorem exists_tryte_of_resolve {symbols : Symbols} {base : Int64} {f : PlacedFragment} {m : Nat}
    {l : Label} {code : Word}
    (h : List.Forall₂ (fun slot t => f.resolve symbols base slot = .ok t)
      (List.replicate m (.tryte .zero) ++ [.address l]) code) :
    ∃ t, code = List.replicate m Tryte.zero ++ [t] ∧
      f.resolve symbols base (.address l) = .ok t := by
  induction m generalizing code with
  | zero =>
    obtain ⟨t, rest, ht, hrest, rfl⟩ := List.forall₂_cons_left_iff.1 h
    rw [List.forall₂_nil_left_iff.1 hrest]
    exact ⟨t, rfl, ht⟩
  | succ m ih =>
    rw [List.replicate_succ, List.cons_append] at h
    obtain ⟨t, rest, ht, hrest, rfl⟩ := List.forall₂_cons_left_iff.1 h
    obtain ⟨last, rfl, hlast⟩ := ih hrest
    rw [← Except.ok.inj ht]
    exact ⟨last, rfl, hlast⟩

/-! ## Programs -/

instance (v : Int64) : Decidable (FitsTryte v) :=
  inferInstanceAs (Decidable (-364 ≤ v.toInt ∧ v.toInt ≤ 364))

/-- Every label that the fragments refer to is defined among them. -/
def AllDefined (placed : List PlacedFragment) : Prop :=
  ∀ f ∈ placed, ∀ slot ∈ f.trytes, ∀ l ∈ slot.label?, ∃ g ∈ placed, g.label = some l

/-- What instructions refer to fits a tryte. -/
def CodeFits (base : Int64) (placed : List PlacedFragment) : Prop :=
  ∀ f ∈ placed, f.segment = .code → ∀ slot ∈ f.trytes, ∀ l ∈ slot.label?,
    ∀ g ∈ placed, g.label = some l → FitsTryte (f.referenceValue base g.address slot)

instance (placed : List PlacedFragment) : Decidable (AllDefined placed) :=
  inferInstanceAs (Decidable (∀ f ∈ placed, ∀ slot ∈ f.trytes, ∀ l ∈ slot.label?,
    ∃ g ∈ placed, g.label = some l))

instance (base : Int64) (placed : List PlacedFragment) : Decidable (CodeFits base placed) :=
  inferInstanceAs (Decidable (∀ f ∈ placed, f.segment = .code → ∀ slot ∈ f.trytes,
    ∀ l ∈ slot.label?, ∀ g ∈ placed, g.label = some l →
      FitsTryte (f.referenceValue base g.address slot)))

/-- All statements of a source text can be read, as the given fragments, and nothing stands in the
way of a program but the label values of its directives. -/
structure Linkable (config : Config) (source : Text) (table : SymbolTable Nat)
    (fragments : List Fragment) : Prop where
  read : Fragment.readAll (statements config.comment source) = .ok (table, fragments)
  defined : AllDefined (place fragments)
  code : CodeFits config.base (place fragments)

namespace Linkable

variable {config : Config} {source : Text} {table : SymbolTable Nat} {fragments : List Fragment}

theorem assemble_source (h : Linkable config source table fragments) {f : PlacedFragment}
    (hf : f ∈ place fragments) (hdata : f.segment = .data) :
    Data.assemble f.source = .ok f.trytes := by
  have hmem : f.toFragment ∈ fragments := by
    rw [← toFragment_place fragments]
    exact List.mem_map_of_mem hf
  obtain ⟨s, -, hs⟩ := Outcome.exists_of_mem_right (readFrom_eq_ok_iff.1 h.read).1 hmem
  exact hs.assemble_data hdata

theorem links (h : Linkable config source table fragments) {p : Program}
    (hp : assemble config source = .ok p) : p.Links config.base table fragments := by
  obtain ⟨table', fragments', hread, hlinks⟩ := assemble_eq_ok_iff.1 hp
  obtain ⟨rfl, rfl⟩ := Prod.mk.inj (Except.ok.inj (h.read.symm.trans hread))
  exact hlinks

/-- What can go wrong is that a label value is too big for a tryte. -/
theorem exists_of_error (h : Linkable config source table fragments) {e : LineFault}
    (he : assemble config source = .error e) :
    e.fault.kind = .valueOutOfRange ∧ ∃ f ∈ place fragments, ∃ w k l, f.HasLabelValue w k l ∧
      ∃ g ∈ place fragments, g.label = some l ∧
        ¬ FitsTryte (Int64.ofNat g.address + config.base) := by
  have htable := (readFrom_eq_ok_iff.1 h.read).2
  have hlink : link config.base table fragments = .error e := by
    unfold assemble at he
    rwa [h.read] at he
  obtain ⟨earlier, f, later, hplaced, -, ⟨before, slot, after, htrytes, -, hslot⟩, -⟩ :=
    (link_eq_error_iff htable).1 hlink
  have hf : f ∈ place fragments := by simp [hplaced]
  have hmem : slot ∈ f.trytes := by simp [htrytes]
  generalize e.fault = fault at hslot
  cases hslot with
  | undefined hl hnone =>
    obtain ⟨g, hg, hgl⟩ := h.defined f hf slot hmem _ hl
    exact absurd hgl (hnone g hg)
  | @tooBig l hl g hg hgl hbig =>
    refine ⟨rfl, f, hf, ?_⟩
    cases hsegment : f.segment with
    | code => exact absurd (h.code f hf hsegment slot hmem l hl g hg hgl) hbig
    | data =>
      obtain ⟨rfl, w, k, hvalue⟩ :=
        exists_hasLabelValue hsegment (h.assemble_source hf hsegment) hmem hl
      exact ⟨w, k, l, hvalue, g, hg, hgl, hbig⟩

theorem fits_of_assemble (h : Linkable config source table fragments) {p : Program}
    (hp : assemble config source = .ok p) {f : PlacedFragment} (hf : f ∈ place fragments)
    {w : Width} {k : Nat} {l : Label} (hvalue : f.HasLabelValue w k l) {g : PlacedFragment}
    (hg : g ∈ place fragments) (hl : g.label = some l) :
    FitsTryte (Int64.ofNat g.address + config.base) := by
  by_contra hbig
  have htable := (readFrom_eq_ok_iff.1 h.read).2
  obtain ⟨j, hj⟩ := List.mem_iff_getElem?.1 (hvalue.mem_trytes (h.assemble_source hf hvalue.1))
  obtain ⟨t, -, ht⟩ := (h.links hp).exists_image_getElem? hf hj
  -- The reference has a tryte, so it cannot have a fault.
  have hfault : f.Unresolved (place fragments) config.base (.address l)
      (.reference l (.integerTooBig (Int64.ofNat g.address + config.base) .tryte)) :=
    .tooBig rfl hg hl hbig
  rw [← resolve_eq_error_iff htable, ht] at hfault
  cases hfault

/-- The trytes of a label value have its value, which is in the last of them. -/
theorem toInt64_value (h : Linkable config source table fragments) {p : Program}
    (hp : assemble config source = .ok p) {u : LinkedFragment} (hu : u ∈ p.inOrder) {w : Width}
    {n k : Nat} {l : Label} (hw : w.trytes.toInt = n) (hvalue : u.HasLabelValue w k l) :
    ∃ a, p.address? l = some a ∧ ((p.image.drop (u.address + n * k)).take n).length = n ∧
      Word.toInt64 ((p.image.drop (u.address + n * k)).take n) = Int64.ofNat a + config.base := by
  have hlinks := h.links hp
  obtain ⟨hmem, hplaced⟩ := hlinks.mem_inOrder hu
  -- Linking goes tryte by tryte, so it takes the part of the value to the part of the code.
  have hpart := List.forall₂_take n (List.forall₂_drop (n * k) (hlinks.resolved u hmem))
  rw [hvalue.slots (h.assemble_source hplaced hvalue.1) hw] at hpart
  obtain ⟨t, hcode, ht⟩ := exists_tryte_of_resolve hpart
  obtain ⟨a, ha, htoInt⟩ := exists_target_of_resolve ht
  obtain ⟨-, type, values, -, htype, -⟩ := hvalue
  obtain ⟨m, hm, hpos, -⟩ := exists_trytes_of_ofName? htype
  have hlen := congrArg List.length hcode
  simp only [List.length_take, List.length_drop, List.length_append, List.length_replicate,
    List.length_singleton] at hlen
  have himage : (p.image.drop (u.address + n * k)).take n = (u.code.drop (n * k)).take n := by
    obtain ⟨after, hafter⟩ := hlinks.exists_drop_image hu
    rw [← List.drop_drop, hafter, List.drop_append_of_le_length (by omega),
      List.take_append_of_le_length (by rw [List.length_drop]; omega)]
  refine ⟨a, (hlinks.address?_eq l).trans ha, ?_, ?_⟩
  · rw [himage, List.length_take, List.length_drop]
    omega
  · rw [himage, hcode, Word.toInt64_replicate_zero_append, Word.toInt64_singleton, htoInt,
      Int64.ofInt_toInt]

end Linkable

/-- When the instructions can be linked, the program can be linked exactly when the address of every
label value fits one tryte, whatever the width of the directive. If one does not fit, that is the
fault. If all fit, the trytes of each value, as many as the width says, have the address as their
value. -/
theorem assemble_label_values {config : Config} {source : Text} {table : SymbolTable Nat}
    {fragments : List Fragment} (h : Linkable config source table fragments) :
    ((∃ p, assemble config source = .ok p) ↔
      ∀ f ∈ place fragments, ∀ w k l, f.HasLabelValue w k l →
        ∀ g ∈ place fragments, g.label = some l →
          FitsTryte (Int64.ofNat g.address + config.base)) ∧
    (∀ e, assemble config source = .error e → e.fault.kind = .valueOutOfRange) ∧
    (∀ p, assemble config source = .ok p → ∀ u ∈ p.inOrder, ∀ w k l, u.HasLabelValue w k l →
      ∀ n : Nat, w.trytes.toInt = n → ∃ a, p.address? l = some a ∧
        ((p.image.drop (u.address + n * k)).take n).length = n ∧
        Word.toInt64 ((p.image.drop (u.address + n * k)).take n) =
          Int64.ofNat a + config.base) := by
  refine ⟨⟨?_, ?_⟩, ?_, ?_⟩
  · rintro ⟨p, hp⟩ f hf w k l hvalue g hg hl
    exact h.fits_of_assemble hp hf hvalue hg hl
  · intro hfits
    cases hassemble : assemble config source with
    | ok p => exact ⟨p, rfl⟩
    | error e =>
      obtain ⟨-, f, hf, w, k, l, hvalue, g, hg, hl, hbig⟩ := h.exists_of_error hassemble
      exact absurd (hfits f hf w k l hvalue g hg hl) hbig
  · intro e he
    exact (h.exists_of_error he).1
  · intro p hp u hu w k l hvalue n hw
    exact h.toInt64_value hp hu hw hvalue

/-- A numeral and two labels, in pairs, behind an instruction. -/
def labelsInPairs : Text := ".code\na: jmp a\n.data\nb: pair 5, a, b\n".toList

theorem labelsInPairs_values :
    ∃ table fragments, Linkable .default labelsInPairs table fragments ∧
      ∃ p, assemble .default labelsInPairs = .ok p ∧
        p.image.map Tryte.toInt = [80, 9, 0, -4, 0, 5, 0, -364, 0, -360] ∧
        ∀ u ∈ p.inOrder, ∀ k l, u.HasLabelValue .pair k l →
          ∃ a, p.address? l = some a ∧
            Word.toInt64 ((p.image.drop (u.address + 2 * k)).take 2) = Int64.ofNat a + -364 := by
  have hcheck : ((Fragment.readAll (statements [';'] labelsInPairs)).map Prod.snd).map
      (fun fragments => decide (AllDefined (place fragments) ∧ CodeFits (-364) (place fragments))) =
      .ok true := by
    decide +kernel
  obtain ⟨_, hsnd, hplaced⟩ := Outcome.map_eq_ok.1 hcheck
  obtain ⟨⟨table, fragments⟩, hread, rfl⟩ := Outcome.map_eq_ok.1 hsnd
  obtain ⟨hdefined, hcode⟩ := of_decide_eq_true hplaced
  have hlinkable : Linkable .default labelsInPairs table fragments := ⟨hread, hdefined, hcode⟩
  have himage : (assemble .default labelsInPairs).map (fun p => p.image.map Tryte.toInt) =
      .ok [80, 9, 0, -4, 0, 5, 0, -364, 0, -360] := by
    decide +kernel
  obtain ⟨p, hp, hvalues⟩ := Outcome.map_eq_ok.1 himage
  refine ⟨table, fragments, hlinkable, p, hp, hvalues, fun u hu k l hvalue => ?_⟩
  obtain ⟨a, ha, -, htoInt⟩ :=
    (assemble_label_values hlinkable).2.2 p hp u hu .pair k l hvalue 2 rfl
  exact ⟨a, ha, htoInt⟩

/-- A label whose address fits two trytes but not one. -/
def wideAddress : Text := ".data\nX: pair X\n".toList

/-- A wider directive does not make room for a bigger address. -/
theorem wideAddress_refused :
    ∃ table fragments, Linkable ⟨[';'], 1000⟩ wideAddress table fragments ∧
      (∀ f ∈ place fragments, ∀ w k l, f.HasLabelValue w k l →
        ∀ g ∈ place fragments, g.label = some l →
          |(Int64.ofNat g.address + 1000).toInt| ≤ w.max.toInt) ∧
      assemble ⟨[';'], 1000⟩ wideAddress =
        .error ⟨2, .reference ['X'] (.integerTooBig 1000 .tryte)⟩ := by
  have hcheck : ((Fragment.readAll (statements [';'] wideAddress)).map Prod.snd).map
      (fun fragments => decide (AllDefined (place fragments) ∧ CodeFits 1000 (place fragments) ∧
        ∀ f ∈ place fragments, f.address = 0 ∧
          (Text.fields isSeparator f.source).head?.bind Width.ofName? = some .pair)) =
      .ok true := by
    decide +kernel
  obtain ⟨_, hsnd, hplaced⟩ := Outcome.map_eq_ok.1 hcheck
  obtain ⟨⟨table, fragments⟩, hread, rfl⟩ := Outcome.map_eq_ok.1 hsnd
  obtain ⟨hdefined, hcode, hpair⟩ := of_decide_eq_true hplaced
  have hrefused : (assemble ⟨[';'], 1000⟩ wideAddress).map (·.image) =
      .error ⟨2, .reference ['X'] (.integerTooBig 1000 .tryte)⟩ := by
    decide +kernel
  refine ⟨table, fragments, ⟨hread, hdefined, hcode⟩, ?_, Outcome.map_eq_error.1 hrefused⟩
  rintro f hf w k l ⟨-, type, values, hfields, htype, -⟩ g hg -
  have hwidth := (hpair f hf).2
  rw [hfields] at hwidth
  obtain rfl : w = .pair := Option.some.inj (htype.symm.trans hwidth)
  rw [(hpair g hg).1]
  decide

end Assembly

end BalancedTernary
