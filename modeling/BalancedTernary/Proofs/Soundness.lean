import BalancedTernary.Proofs.Reachability
import BalancedTernary.Proofs.Symbols

/-!
# Disassembling assembled programs

Where every jump of a program leads to an instruction of it, and its last instruction does not run
into the data, execution comes to nothing but assembled instructions. So the disassembly of the
image shows as code only what was assembled from an instruction, and all data as data.
-/

namespace BalancedTernary

namespace Assembly

/-! ## Programs that keep to their own code -/

/-- The operand is a register or the label of an instruction. -/
def Operand.Value.LeadsToCode (p : Program) : Operand.Value → Prop
  | .register _ => True
  | .literal _ => False
  | .label l => ∃ v ∈ p.inOrder, v.segment = .code ∧ v.label = some l

instance (p : Program) : DecidablePred (Operand.Value.LeadsToCode p)
  | .register _ => inferInstanceAs (Decidable True)
  | .literal _ => inferInstanceAs (Decidable False)
  | .label l => inferInstanceAs (Decidable (∃ v ∈ p.inOrder, v.segment = .code ∧ v.label = some l))

/-- Every immediate operand of a jump is the label of an instruction, and the last instruction never
continues with what comes after it. -/
def Program.Closed (p : Program) : Prop :=
  (∀ u ∈ p.inOrder, u.segment = .code → ∀ i ∈ (Instruction.parse u.source).toOption,
    i.family = .jump → ∀ o ∈ i.operands, o.value.LeadsToCode p) ∧
  ∃ u ∈ (p.inOrder.filter (·.isIn .code)).getLast?, ∃ i ∈ (Instruction.parse u.source).toOption,
    i.mnemonic = "jmp".toList ∨ i.mnemonic = "restart".toList

instance (p : Program) : Decidable p.Closed := inferInstanceAs (Decidable (_ ∧ _))

/-- An instruction of the program stands at the address. -/
def Program.CodeAt (p : Program) (a : Nat) : Prop :=
  ∃ u ∈ p.inOrder, u.segment = .code ∧ u.address = a

theorem Statement.Yields.assemble_source {s : Statement} {f : Fragment} (h : s.Yields f)
    (hcode : f.segment = .code) : Instruction.assemble f.source = .ok f.trytes := by
  obtain ⟨label, body, -, hencode⟩ := h
  obtain ⟨slots, hslots, rfl⟩ := Statement.encode_eq_ok_iff.1 hencode
  exact ((Statement.assemble_of_code hcode).1 hslots).2

theorem PlacedFragment.settles_of_resolve {f : PlacedFragment} {symbols : Symbols} {base : Int64}
    {slot : Relocatable} {t : Tryte} (h : f.resolve symbols base slot = .ok t) :
    slot.Settles t := by
  cases slot with
  | tryte s => exact (Except.ok.inj h).symm
  | address label => trivial
  | displacement label => trivial

namespace Instruction

/-- The two mnemonics that end a path have no synonyms. -/
theorem mnemonic?_of_parse {body : Text} {i : Instruction} (h : parse body = .ok i) {m : String}
    (hm : m ∈ ["jmp", "restart"]) (himnemonic : i.mnemonic = m.toList) :
    i.family.mnemonic? i.variant = some m := by
  have htable : ∀ m ∈ ["jmp", "restart"], ((Family.all.find? fun f => f.owns m.toList).bind fun f =>
      (f.variant? m.toList).bind f.mnemonic?) = some m := by
    decide
  obtain ⟨f, hf, hpair⟩ := Option.map_eq_some_iff.1 (find?_of_parse h)
  obtain ⟨rfl, hvariant⟩ := Prod.mk.inj hpair
  rw [himnemonic] at hf hvariant
  have hmnemonic := htable m hm
  rw [hf, Option.bind_some, hvariant, Option.bind_some] at hmnemonic
  exact hmnemonic

end Instruction

namespace Program.Links

variable {p : Program} {base : Int64} {table : SymbolTable Nat} {fragments : List Fragment}
  {found : List Statement} {u v : LinkedFragment}

/-- From the address of a fragment on, the image has its trytes. -/
theorem exists_drop_image (h : p.Links base table fragments) (hu : u ∈ p.inOrder) :
    ∃ after, p.image.drop u.address = u.code ++ after := by
  obtain ⟨us, vs, hsplit⟩ := List.append_of_mem hu
  have hcontiguous := h.contiguous_inOrder
  rw [hsplit, List.map_append, contiguous_append, List.map_cons] at hcontiguous
  have haddress : u.address = totalLength (us.map (·.toPlacedFragment)) := by
    have hstart := hcontiguous.2.1
    rw [Nat.zero_add] at hstart
    exact hstart
  have hlength : (us.flatMap (·.code)).length = u.address := by
    rw [haddress]
    unfold totalLength
    rw [List.flatMap_map, List.length_flatMap, List.length_flatMap]
    congr 1
    apply List.map_congr_left
    intro w hw
    have hmem : w ∈ p.inOrder := hsplit ▸ List.mem_append_left _ hw
    exact h.length_code (h.mem_inOrder hmem).1
  refine ⟨vs.flatMap (·.code), ?_⟩
  unfold image
  rw [hsplit, List.flatMap_append, List.flatMap_cons, List.drop_left' hlength]

theorem contiguous_code (h : p.Links base table fragments) :
    Contiguous 0 ((p.inOrder.filter (·.isIn .code)).map (·.toPlacedFragment)) := by
  have hcontiguous := h.contiguous_inOrder
  rw [p.filter_inOrder]
  unfold inOrder at hcontiguous
  rw [List.map_append, contiguous_append] at hcontiguous
  exact hcontiguous.1

theorem eq_of_overlap (h : p.Links base table fragments)
    (hyields : List.Forall₂ Statement.Yields found fragments) (hu : u ∈ p.inOrder)
    (hv : v ∈ p.inOrder) {x : Nat} (hux : u.address ≤ x ∧ x < u.stop)
    (hvx : v.address ≤ x ∧ x < v.stop) : u = v := by
  have hplaced : u.toPlacedFragment = v.toPlacedFragment :=
    h.contiguous_inOrder.eq_of_overlap (List.mem_map_of_mem hu) (List.mem_map_of_mem hv) hux hvx
  exact h.eq_of_address_eq hyields hu hv (congrArg PlacedFragment.address hplaced)

theorem assemble_source (h : p.Links base table fragments)
    (hyields : List.Forall₂ Statement.Yields found fragments) (hu : u ∈ p.inOrder)
    (hcode : u.segment = .code) : Instruction.assemble u.source = .ok u.trytes := by
  obtain ⟨s, -, hs⟩ := h.exists_yields hyields hu
  exact hs.assemble_source hcode

end Program.Links

end Assembly

namespace Disassembly

open Assembly

/-! ## Decoding an assembled instruction -/

/-- What was assembled is recognised, whatever its references became. -/
theorem reports_of_assemble {body : Text} {slots : List Relocatable} {code : Word}
    (h : Instruction.assemble body = .ok slots)
    (hcode : List.Forall₂ Relocatable.Settles slots code) (address : Nat) (after : Word) :
    ∃ i format d, Instruction.parse body = .ok i ∧ decode? address (code ++ after) = some d ∧
      Reports i format slots code (address + slots.length) d := by
  obtain ⟨i, hparse, -, hencode⟩ := Instruction.assemble_eq_ok_iff.1 h
  obtain ⟨format, hformat, rfl⟩ := Instruction.encode_eq_ok_iff.1 hencode
  obtain ⟨hmem, hmodes⟩ := Family.mem_of_format? hformat
  obtain ⟨rest, rfl, hrest⟩ := settles_append hcode
  obtain ⟨name, hname⟩ := Instruction.lookup?_of_parse hparse
  obtain ⟨variant, hvariant, heq⟩ := Family.mem_variants_of_lookup? hname
  have hlength : rest.length = format.extensions.length := by
    rw [← hrest.length_eq, List.length_map]
  obtain ⟨d, hd, hreports⟩ := reports_of_encode hvariant heq hmem hmodes hlength address after
  refine ⟨i, format, d, hparse, hd, ?_⟩
  rw [List.length_append, List.length_map, List.length_map,
    Format.length_fill (Family.fits_of_mem hmem).toReadable]
  exact hreports

/-- A branch comes from an immediate operand of a jump, and leads where its tryte says. -/
theorem Reports.exists_operand {i : Instruction} {format : Format} {slots : List Relocatable}
    {code : Word} {stop : Nat} {d : Decoded} (h : Reports i format slots code stop d)
    {a : Argument} (ha : a ∈ d.arguments) {v target : Int} (hv : a.value = .branch v target) :
    i.family = .jump ∧ ∃ o ∈ i.operands, o.register? = none ∧
      ∃ (k : Nat) (t : Tryte), slots[k]? = some (i.immediate o) ∧ code[k]? = some t ∧
        target = stop + t.toInt := by
  obtain ⟨k, hk⟩ := List.mem_iff_getElem?.1 ha
  have hmode : i.operands[k]?.map Operand.mode = some a.mode := by
    rw [← Instruction.getElem?_modes, ← h.modes, Decoded.modes, List.getElem?_map, hk]
    rfl
  obtain ⟨o, ho, -⟩ := Option.map_eq_some_iff.1 hmode
  cases hregister : o.register? with
  | some r =>
    -- A register is shown as a register, or as one that is not known.
    obtain ⟨a', ha', hvalue⟩ := h.registers k o r ho hregister
    rw [← Option.some.inj (hk.symm.trans ha'), hv] at hvalue
    split at hvalue <;> exact nomatch hvalue
  | none =>
    obtain ⟨a', position, e, t, ha', -, -, hslot, ht, hvalue⟩ := h.immediates k o ho hregister
    rw [← Option.some.inj (hk.symm.trans ha'), hv] at hvalue
    split at hvalue
    · rename_i hrelative
      have htarget := (Argument.Value.branch.inj hvalue).2
      exact ⟨Family.isRelative_iff.1 hrelative, o, List.mem_of_getElem? ho, hregister,
        3 + position, t, hslot, ht, htarget⟩
    · exact nomatch hvalue

theorem Decoded.mem_targets {size b : Nat} {d : Decoded} (h : b ∈ d.targets size) :
    ∃ a ∈ d.arguments, ∃ v : Int, a.value = .branch v b := by
  obtain ⟨a, ha, hb⟩ := List.mem_filterMap.1 h
  refine ⟨a, ha, ?_⟩
  split at hb
  · rename_i v target hvalue
    split at hb
    · rename_i hrange
      rw [← Option.some.inj hb, Int.toNat_of_nonneg hrange.1]
      exact ⟨v, hvalue⟩
    · exact nomatch hb
  · exact nomatch hb

/-! ## The invariant of the search -/

section Flow

variable {p : Program} {base : Int64} {table : SymbolTable Nat} {fragments : List Fragment}
  {found : List Statement} {u : LinkedFragment} (hlinks : p.Links base table fragments)

include hlinks

theorem exists_reports (hyields : List.Forall₂ Statement.Yields found fragments)
    (hu : u ∈ p.inOrder) (hcode : u.segment = .code) :
    ∃ i format d, Instruction.parse u.source = .ok i ∧
      decode? u.address (p.image.drop u.address) = some d ∧
        Reports i format u.trytes u.code u.stop d := by
  obtain ⟨after, hafter⟩ := hlinks.exists_drop_image hu
  have hsettles : List.Forall₂ Relocatable.Settles u.trytes u.code :=
    (hlinks.resolved u (hlinks.mem_inOrder hu).1).imp fun _ _ ht =>
      PlacedFragment.settles_of_resolve ht
  rw [hafter]
  exact reports_of_assemble (hlinks.assemble_source hyields hu hcode) hsettles _ _

variable (hclosed : p.Closed)

include hclosed

theorem codeAt_zero : p.CodeAt 0 := by
  obtain ⟨u, hlast, -⟩ := hclosed.2
  have hcontiguous := hlinks.contiguous_code
  cases hcode : p.inOrder.filter (·.isIn .code) with
  | nil =>
    rw [hcode] at hlast
    exact nomatch hlast
  | cons v vs =>
    rw [hcode] at hcontiguous
    have hv : v ∈ p.inOrder.filter (·.isIn .code) := hcode ▸ List.mem_cons_self
    rw [List.mem_filter] at hv
    exact ⟨v, hv.1, of_decide_eq_true hv.2, hcontiguous.1⟩

section Step

variable {i : Instruction} {format : Format} {d : Decoded}
  (hu : u ∈ p.inOrder) (hcode : u.segment = .code) (hparse : Instruction.parse u.source = .ok i)
  (hreports : Reports i format u.trytes u.code u.stop d)

include hu hcode hparse hreports

/-- Execution that goes on comes to the next instruction. -/
theorem codeAt_next (hterminal : d.isTerminal = false) : p.CodeAt (u.address + d.length) := by
  have hmem : u.toPlacedFragment ∈
      (p.inOrder.filter (·.isIn .code)).map (·.toPlacedFragment) :=
    List.mem_map_of_mem (List.mem_filter.2 ⟨hu, decide_eq_true hcode⟩)
  -- There is a next one unless this is the last instruction of all.
  have hlast : ((p.inOrder.filter (·.isIn .code)).map (·.toPlacedFragment)).getLast? ≠
      some u.toPlacedFragment := by
    intro hlast
    obtain ⟨w, hw, i', hparse', hmnemonic⟩ := hclosed.2
    rw [List.getLast?_map, Option.mem_def.1 hw] at hlast
    -- The last instruction would be this one, and that is where a path ends.
    have hwu : w.toPlacedFragment = u.toPlacedFragment := Option.some.inj hlast
    rw [congrArg (fun f : PlacedFragment => f.source) hwu, hparse] at hparse'
    obtain rfl : i = i' := Option.some.inj hparse'
    obtain ⟨m, hm, himnemonic⟩ : ∃ m ∈ ["jmp", "restart"], i.mnemonic = m.toList := by
      simpa using hmnemonic
    have hshown := hreports.mnemonic
    rw [Instruction.mnemonic?_of_parse hparse hm himnemonic] at hshown
    have hterminals : ∀ m ∈ ["jmp", "restart"], (m == "jmp" || m == "restart") = true := by decide
    unfold Decoded.isTerminal at hterminal
    rw [← Option.some.inj hshown, hterminals m hm] at hterminal
    exact nomatch hterminal
  obtain ⟨g, hg, haddress⟩ := hlinks.contiguous_code.exists_next hmem hlast
  obtain ⟨v, hv, rfl⟩ := List.mem_map.1 hg
  rw [List.mem_filter] at hv
  refine ⟨v, hv.1, of_decide_eq_true hv.2, haddress.trans ?_⟩
  rw [hreports.length]
  rfl

/-- A branch comes to an instruction. -/
theorem codeAt_target (hsize : p.image.length < 2 ^ 63)
    (htable : declareFrom .empty 0 fragments = .ok table) {b : Nat}
    (hb : b ∈ d.targets p.image.length) : p.CodeAt b := by
  obtain ⟨a, ha, v, hvalue⟩ := Decoded.mem_targets hb
  obtain ⟨hjump, o, ho, hregister, k, t, hslot, ht, htarget⟩ := hreports.exists_operand ha hvalue
  have hleads := hclosed.1 u hu hcode i (by rw [hparse]; rfl) hjump o ho
  obtain ⟨l, hl, w, hw, hwcode, hlabel⟩ : ∃ l, o.value = .label l ∧
      ∃ w ∈ p.inOrder, w.segment = .code ∧ w.label = some l := by
    unfold Operand.register? at hregister
    cases hvalue : o.value with
    | register r =>
      rw [hvalue] at hregister
      exact nomatch hregister
    | literal t =>
      rw [hvalue] at hleads
      exact hleads.elim
    | label l =>
      rw [hvalue] at hleads
      exact ⟨l, rfl, hleads⟩
  have himmediate : i.immediate o = .displacement l := by
    unfold Instruction.immediate
    rw [hl, hjump]
    rfl
  obtain ⟨hmem, hplaced⟩ := hlinks.mem_inOrder hu
  obtain ⟨t', ht', hresolve⟩ := Outcome.forall₂_getElem? (hlinks.resolved u hmem) hslot
  obtain rfl : t = t' := Option.some.inj (ht.symm.trans ht')
  rw [himmediate] at hresolve
  obtain ⟨address, haddress, hdistance⟩ := hlinks.toInt_displacement hsize hplaced hresolve
  have hwaddress : p.address? l = some w.address :=
    (hlinks.address?_eq_some_iff htable).2 ⟨w, hw, hlabel, rfl⟩
  rw [hwaddress] at haddress
  obtain rfl : w.address = address := Option.some.inj haddress
  exact ⟨w, hw, hwcode, by omega⟩

end Step

variable (hyields : List.Forall₂ Statement.Yields found fragments)
  (htable : declareFrom .empty 0 fragments = .ok table) (hsize : p.image.length < 2 ^ 63)

include hyields htable hsize

/-- Execution comes to nothing but instructions of the program. -/
theorem codeAt_of_reaches {a : Nat} (h : Reaches (successors? (decoded p.image)) [0] a) :
    p.CodeAt a := by
  induction h with
  | start hmem _ =>
    rw [List.eq_of_mem_singleton hmem]
    exact codeAt_zero hlinks hclosed
  | @step a b next _ hnext hb _ ih =>
    obtain ⟨u, hu, hcode, rfl⟩ := ih
    obtain ⟨i, format, d, hparse, hd, hreports⟩ := exists_reports hlinks hyields hu hcode
    obtain ⟨d', -, hd', rfl⟩ := successors?_eq_some_iff.1 hnext
    obtain rfl : d = d' := Option.some.inj (hd.symm.trans hd')
    rcases List.mem_append.1 hb with hb | hb
    · split at hb
      · exact nomatch hb
      · rename_i hterminal
        rw [List.eq_of_mem_singleton hb]
        exact codeAt_next hlinks hclosed hu hcode hparse hreports (Bool.eq_false_iff.2 hterminal)
    · exact codeAt_target hlinks hclosed hu hcode hparse hreports hsize htable hb

/-- What is marked is the instruction that was assembled there. -/
theorem exists_reports_of_marked {a : Nat} (h : Marked p.image a) :
    ∃ u ∈ p.inOrder, u.segment = .code ∧ u.address = a ∧
      ∃ i format d, Instruction.parse u.source = .ok i ∧
        decode? a (p.image.drop a) = some d ∧ Reports i format u.trytes u.code u.stop d := by
  obtain ⟨u, hu, hcode, rfl⟩ := codeAt_of_reaches hlinks hclosed hyields htable hsize h.reaches
  exact ⟨u, hu, hcode, rfl, exists_reports hlinks hyields hu hcode⟩

/-- A row of code covers the trytes of one fragment. -/
theorem exists_fragment_of_code_row {a : Nat} {d : Decoded} (h : Row.code a d ∈ rows p.image) :
    Marked p.image a ∧
      ∃ u ∈ p.inOrder, u.segment = .code ∧ u.address = a ∧ d.length = u.length := by
  obtain ⟨t, ht⟩ := renders_rows h
  obtain ⟨hmarked, hd⟩ := marked_of_cell ht
  obtain ⟨u, hu, hcode, haddress, i, format, d', -, hd', hreports⟩ :=
    exists_reports_of_marked hlinks hclosed hyields htable hsize hmarked
  obtain rfl : d = d' := Option.some.inj (hd.symm.trans hd')
  exact ⟨hmarked, u, hu, hcode, haddress, hreports.length⟩

/-- Nothing that is marked stands inside another instruction, so each mark has its row. -/
theorem code_row_of_marked {a : Nat} (h : Marked p.image a) {d : Decoded}
    (hd : decode? a (p.image.drop a) = some d) : Row.code a d ∈ rows p.image := by
  obtain ⟨u, hu, -, haddress, -⟩ :=
    exists_reports_of_marked hlinks hclosed hyields htable hsize h
  have hpos := hlinks.length_pos hyields hu
  have hstop := hlinks.stop_le (hlinks.mem_inOrder hu).2
  unfold PlacedFragment.stop at hstop
  obtain ⟨row, hrow, hlo, hhi⟩ :=
    (tiles_rows p.image).exists_mem (Nat.zero_le a) (show a < p.image.length by omega)
  cases row with
  | code a' d' =>
    obtain ⟨-, v, hv, -, hvaddress, hlength⟩ :=
      exists_fragment_of_code_row hlinks hclosed hyields htable hsize hrow
    change a' ≤ a at hlo
    change a < a' + d'.length at hhi
    -- The row covers one fragment, and this address belongs to it.
    obtain rfl : u = v := by
      refine hlinks.eq_of_overlap hyields hu hv (x := a) ?_ ?_ <;>
        (unfold PlacedFragment.stop; omega)
    obtain rfl : a' = a := hvaddress.symm.trans haddress
    have hshows : decode? a' (p.image.drop a') = some d' := (tiles_rows p.image).shows hrow
    rw [← Option.some.inj (hshows.symm.trans hd)]
    exact hrow
  | data a' trytes =>
    -- The cells of a row of data have no instruction, and this one has.
    change a' ≤ a at hlo
    change a < a' + trytes.length at hhi
    have hlt : a - a' < trytes.length := by omega
    have hcell := renders_rows hrow (a - a') _ (List.getElem?_eq_getElem hlt)
    rw [Nat.add_sub_cancel' hlo, getElem?_cells, if_pos h, hd] at hcell
    obtain ⟨t, -, hcell⟩ := Option.map_eq_some_iff.1 hcell
    exact nomatch (Prod.mk.inj hcell).2

/-- No row of code has a tryte of a fragment that is data or that is not marked. -/
theorem not_in_code_row (hu : u ∈ p.inOrder)
    (hdata : u.segment = .data ∨ ¬ Marked p.image u.address) {x : Nat}
    (hx : u.address ≤ x ∧ x < u.stop) {a : Nat} {d : Decoded} (hrow : Row.code a d ∈ rows p.image) :
    ¬ (a ≤ x ∧ x < a + d.length) := by
  rintro ⟨hlo, hhi⟩
  obtain ⟨hmarked, v, hv, hcode, rfl, hlength⟩ :=
    exists_fragment_of_code_row hlinks hclosed hyields htable hsize hrow
  obtain rfl : u = v := by
    refine hlinks.eq_of_overlap hyields hu hv hx ⟨hlo, ?_⟩
    unfold PlacedFragment.stop
    omega
  rcases hdata with hdata | hunmarked
  · rw [hdata] at hcode
    exact nomatch hcode
  · exact hunmarked hmarked

end Flow

/-! ## The disassembly of a program -/

/-- How the disassembly of its image shows a program. -/
structure Reflects (p : Program) : Prop where
  /-- Whatever is taken for code is an instruction of the program, and shown as that instruction. -/
  code : ∀ a, Marked p.image a → ∃ u ∈ p.inOrder, u.segment = .code ∧ u.address = a ∧
    ∃ i d, Instruction.parse u.source = .ok i ∧ Row.code a d ∈ rows p.image ∧
      d.length = u.length ∧ i.family.mnemonic? i.variant = some d.mnemonic
  /-- All else is shown as data, tryte by tryte. -/
  data : ∀ u ∈ p.inOrder, u.segment = .data ∨ ¬ Marked p.image u.address →
    ∀ j t, u.code[j]? = some t →
      (∃ a trytes, Row.data a trytes ∈ rows p.image ∧ a ≤ u.address + j ∧
        trytes[u.address + j - a]? = some t) ∧
      ∀ a d, Row.code a d ∈ rows p.image → ¬ (a ≤ u.address + j ∧ u.address + j < a + d.length)

/-- The disassembly of a program that keeps to its own code is sound, as long as 64 bits hold its
addresses. -/
theorem reflects_of_closed {config : Config} {source : Text} {p : Program}
    (h : assemble config source = .ok p) (hsize : p.image.length < 2 ^ 63) (hclosed : p.Closed) :
    Reflects p := by
  obtain ⟨table, fragments, hread, hlinks⟩ := assemble_eq_ok_iff.1 h
  obtain ⟨hyields, htable⟩ := readFrom_eq_ok_iff.1 hread
  refine ⟨fun a ha => ?_, fun u hu hdata j t ht => ?_⟩
  · obtain ⟨u, hu, hcode, haddress, i, format, d, hparse, hd, hreports⟩ :=
      exists_reports_of_marked hlinks hclosed hyields htable hsize ha
    exact ⟨u, hu, hcode, haddress, i, d, hparse,
      code_row_of_marked hlinks hclosed hyields htable hsize ha hd, hreports.length,
      hreports.mnemonic⟩
  · obtain ⟨hmem, hplaced⟩ := hlinks.mem_inOrder hu
    have hj : j < u.trytes.length := by
      rw [← hlinks.length_code hmem]
      exact (List.getElem?_eq_some_iff.1 ht).1
    have himage : p.image[u.address + j]? = some t := (hlinks.image_getElem? hu hj).trans ht
    have hin : u.address ≤ u.address + j ∧ u.address + j < u.stop :=
      ⟨Nat.le_add_right _ _, Nat.add_lt_add_left hj _⟩
    have hcode {a : Nat} {d : Decoded} (hrow : Row.code a d ∈ rows p.image) :=
      not_in_code_row hlinks hclosed hyields htable hsize hu hdata hin hrow
    refine ⟨?_, fun a d hrow => hcode hrow⟩
    obtain ⟨row, hrow, hlo, hhi⟩ := (tiles_rows p.image).exists_mem (Nat.zero_le (u.address + j))
      (List.getElem?_eq_some_iff.1 himage).1
    cases row with
    | code a d => exact absurd ⟨hlo, hhi⟩ (hcode hrow)
    | data a trytes =>
      change a ≤ u.address + j at hlo
      change u.address + j < a + trytes.length at hhi
      have hlt : u.address + j - a < trytes.length := by omega
      have hcell := renders_rows hrow _ _ (List.getElem?_eq_getElem hlt)
      rw [Nat.add_sub_cancel' hlo, getElem?_cells, himage] at hcell
      refine ⟨a, trytes, hrow, hlo, ?_⟩
      rw [List.getElem?_eq_getElem hlt]
      exact congrArg some (Prod.mk.inj (Option.some.inj hcell)).1.symm

/-- An instruction that is never reached, and data that would be a jump. -/
def lookalike : Text :=
  ".code\njmp end\nagain: jmp again\nend: restart\n.data\ntryte 80, 9, 0, 0".toList

theorem lookalike_reflects :
    ∃ p, assemble .default lookalike = .ok p ∧ p.image.length < 2 ^ 63 ∧ p.Closed ∧
      Reflects p := by
  have hvalues : (assemble .default lookalike).map (fun p => (p.image.length, decide p.Closed)) =
      .ok (15, true) := by
    decide +kernel
  obtain ⟨p, hp, hvalues⟩ := Outcome.map_eq_ok.1 hvalues
  obtain ⟨hlength, hclosed⟩ := Prod.mk.inj hvalues
  have hsize : p.image.length < 2 ^ 63 := by
    rw [hlength]
    decide
  exact ⟨p, hp, hsize, of_decide_eq_true hclosed,
    reflects_of_closed hp hsize (of_decide_eq_true hclosed)⟩

end Disassembly

end BalancedTernary
