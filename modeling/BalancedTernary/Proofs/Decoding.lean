import BalancedTernary.Assembly.Instruction
import BalancedTernary.Disassembly.Decoded
import BalancedTernary.Proofs.InstructionSet
import BalancedTernary.Proofs.Outcome

/-!
# Decoding

The instruction set is uniquely decodable: `decode?` finds the one format that recognises the
trytes, and so it inverts `Instruction.encode`.
-/

namespace BalancedTernary.Disassembly

/-- The addressing mode that an argument shows. -/
def Argument.mode (a : Argument) : Mode :=
  match a.value with
  | .register _ | .unknown => if a.memory then .indirect else .register
  | .immediate _ | .branch _ _ => if a.memory then .direct else .immediate

def Decoded.modes (d : Decoded) : List Mode := d.arguments.map Argument.mode

/-! ## Arguments -/

section Arguments

variable {family : Family} {format : Format} {capture : Capture} {trytes : Word} {stop : Nat}

theorem argument_mode (mode : Mode) (index : Nat) :
    (argument family format capture trytes stop mode index).mode = mode := by
  unfold argument Argument.mode
  cases mode <;> simp only [Mode.isRegister, Mode.isMemory, if_true]
  · cases capture.registers[index]?.join <;> rfl
  · cases capture.registers[index]?.join <;> rfl
  · cases family.isRelative <;> rfl
  · cases family.isRelative <;> rfl

theorem argument_value_register {mode : Mode} (hmode : mode.isRegister = true) (k : Fin 3) :
    (argument family format capture trytes stop mode k).value =
      match capture.registers.get k with
      | some r => .register r
      | none => .unknown := by
  have hk : capture.registers[k.val]?.join = capture.registers.get k := by
    rw [Vector.getElem?_eq_getElem k.isLt]
    rfl
  cases hregister : capture.registers.get k <;> simp only [argument, hmode, if_true, hk, hregister]

theorem extensionValue_eq (index : Nat) :
    extensionValue format trytes index =
      (((format.extensions.findIdx? (Extension.carries index)).bind fun position =>
        trytes[3 + position]?).map Tryte.toInt).getD 0 := rfl

/-- The extension that carries an operand holds its value. -/
theorem extensionValue_of_carries (hfits : format.Fits family) {k : Fin 3} {position : Nat}
    {t : Tryte} (he : format.extensions[position]? = some (.operand k))
    (ht : trytes[3 + position]? = some t) : extensionValue format trytes k = t.toInt := by
  have hposition := (List.getElem?_eq_some_iff.1 he).1
  rw [extensionValue_eq, hfits.located k position hposition he, Option.bind_some, ht]
  rfl

theorem argument_value_immediate {mode : Mode} (hmode : mode.isRegister = false) (index : Nat) :
    (argument family format capture trytes stop mode index).value =
      if family.isRelative then
        .branch (extensionValue format trytes index)
          (stop + extensionValue format trytes index)
      else .immediate (extensionValue format trytes index) := by
  simp only [argument, hmode, Bool.false_eq_true, if_false]

end Arguments

/-! ## Formats -/

section Formats

variable {address : Nat} {trytes : Word} {family : Family} {format : Format} {d : Decoded}

theorem decodeFormat?_eq_some_iff :
    decodeFormat? address trytes family format = some d ↔
      format.length ≤ trytes.length ∧
        ∃ capture, format.match? (trytes.take 3) = some capture ∧
          ∃ mnemonic, family.mnemonic? capture.variant = some mnemonic ∧
            d = ⟨family, mnemonic, format.modes.zipIdx.map fun (mode, index) =>
              argument family format capture (trytes.take format.length)
                (address + format.length) mode index, format.length⟩ := by
  have htake : (trytes.take format.length).take 3 = trytes.take 3 := by
    rw [List.take_take, Nat.min_eq_left (show 3 ≤ format.length from Nat.le_add_right 3 _)]
  simp only [decodeFormat?, List.length_take]
  split
  · rename_i hshort
    exact ⟨nofun, fun h => absurd h.1 (by omega)⟩
  · rename_i hlong
    rw [htake, Option.bind_eq_some_iff]
    constructor
    · rintro ⟨capture, hc, h⟩
      obtain ⟨mnemonic, hm, rfl⟩ := Option.map_eq_some_iff.1 h
      exact ⟨by omega, capture, hc, mnemonic, hm, rfl⟩
    · rintro ⟨-, capture, hc, mnemonic, hm, rfl⟩
      exact ⟨capture, hc, Option.map_eq_some_iff.2 ⟨mnemonic, hm, rfl⟩⟩

theorem decodeFormat?_unique {g : Family} {G : Format} {d' : Decoded}
    (hF : format ∈ family.formats) (hG : G ∈ g.formats)
    (h : decodeFormat? address trytes family format = some d)
    (h' : decodeFormat? address trytes g G = some d') : d = d' := by
  obtain ⟨hlen, c, hc, m, hm, -⟩ := decodeFormat?_eq_some_iff.1 h
  obtain ⟨-, c', hc', m', hm', -⟩ := decodeFormat?_eq_some_iff.1 h'
  have hlead : (trytes.take 3).length = 3 := by
    rw [List.length_take]
    unfold Format.length at hlen
    omega
  obtain ⟨rfl, rfl⟩ := Family.format_unique hlead hF hG hc hc'
    (Option.isSome_of_eq_some hm) (Option.isSome_of_eq_some hm')
  exact Option.some.inj (h.symm.trans h')

/-- The order of the table does not matter: any format that recognises the trytes gives the
answer. -/
theorem decode?_eq_some_iff :
    decode? address trytes = some d ↔
      ∃ family, ∃ format ∈ Family.formats family,
        decodeFormat? address trytes family format = some d := by
  constructor
  · intro h
    obtain ⟨family, -, h⟩ := List.exists_of_findSome?_eq_some h
    obtain ⟨format, hformat, h⟩ := List.exists_of_findSome?_eq_some h
    exact ⟨family, format, hformat, h⟩
  · rintro ⟨family, format, hformat, h⟩
    -- The search may stop at another format, which then gives the same answer.
    have hsome : (decode? address trytes).isSome := by
      refine List.findSome?_isSome_iff.2 ⟨family, family.mem_all, ?_⟩
      exact List.findSome?_isSome_iff.2 ⟨format, hformat, Option.isSome_of_eq_some h⟩
    obtain ⟨d', hd'⟩ := Option.isSome_iff_exists.1 hsome
    obtain ⟨g, -, h'⟩ := List.exists_of_findSome?_eq_some hd'
    obtain ⟨G, hG, h'⟩ := List.exists_of_findSome?_eq_some h'
    rw [hd', decodeFormat?_unique hformat hG h h']

end Formats

end BalancedTernary.Disassembly

namespace BalancedTernary.Assembly

/-! ## Instructions -/

/-- `t` may stand where `slot` does: it is the tryte there, or there is a reference. -/
def Relocatable.Settles : Relocatable → Tryte → Prop
  | .tryte u, t => t = u
  | .address _, _ => True
  | .displacement _, _ => True

theorem settles_append {lead : Word} {slots : List Relocatable} {code : Word}
    (h : List.Forall₂ Relocatable.Settles (lead.map .tryte ++ slots) code) :
    ∃ rest, code = lead ++ rest ∧ List.Forall₂ Relocatable.Settles slots rest := by
  induction lead generalizing code with
  | nil => exact ⟨code, rfl, h⟩
  | cons t lead ih =>
    rw [List.map_cons, List.cons_append, List.forall₂_cons_left_iff] at h
    obtain ⟨u, code, hu, hcode, rfl⟩ := h
    obtain ⟨rest, rfl, hrest⟩ := ih hcode
    have hut : u = t := hu
    exact ⟨rest, by rw [hut, List.cons_append], hrest⟩

namespace Operand

theorem isRegister_mode (o : Operand) : o.mode.isRegister = o.register?.isSome := by
  unfold mode register?
  cases o.value <;> cases o.memory <;> rfl

end Operand

namespace Instruction

variable {i : Instruction}

theorem getElem?_modes (k : Nat) : i.modes[k]? = i.operands[k]?.map Operand.mode :=
  List.getElem?_map

theorem registers_of_operand {k : Fin 3} {o : Operand} {r : Register}
    (ho : i.operands[k.val]? = some o) (hr : o.register? = some r) : i.registers.get k = r := by
  unfold registers
  change (Vector.ofFn _)[k.val] = r
  rw [Vector.getElem_ofFn]
  change (i.operands[k.val]?.bind Operand.register?).getD .zero = r
  rw [ho, Option.bind_some, hr]
  rfl

/-- What is read from a body: a mnemonic that has a variant, and operands from the texts after
it. -/
theorem parse_eq_ok_iff {body : Text} :
    parse body = .ok i ↔
      Family.lookup? ((unifyArrows body).takeWhile inMnemonic) = some (i.family, some i.variant) ∧
      Text.lower ((unifyArrows body).takeWhile inMnemonic) = i.mnemonic ∧
      ∃ texts, operandTexts? ((unifyArrows body).dropWhile inMnemonic) =
          some (texts, i.hasDestination) ∧
        List.Forall₂ (fun s o => Operand.parse s = .ok o) texts i.operands := by
  unfold parse
  dsimp only
  constructor
  · intro h
    split at h
    · rename_i family variant hlookup
      split at h
      · cases h
      · rename_i texts hasDestination htexts
        obtain ⟨operands, hoperands, h⟩ := Outcome.bind_eq_ok.1 h
        rw [← Except.ok.inj h]
        exact ⟨hlookup, rfl, texts, htexts, Outcome.mapM_eq_ok.1 hoperands⟩
    · cases h
  · rintro ⟨hlookup, hname, texts, htexts, hoperands⟩
    rw [hlookup]
    dsimp only
    rw [htexts]
    dsimp only
    rw [Outcome.mapM_eq_ok.2 hoperands, hname]
    rfl

/-- The mnemonic alone decides on the family and the variant. -/
theorem find?_of_parse {body : Text} (h : parse body = .ok i) :
    (Family.all.find? fun f => f.owns i.mnemonic).map (fun f => (f, f.variant? i.mnemonic)) =
      some (i.family, some i.variant) := by
  obtain ⟨hlookup, hname, -⟩ := parse_eq_ok_iff.1 h
  rw [← hname]
  exact hlookup

theorem lookup?_of_parse {body : Text} (h : parse body = .ok i) :
    ∃ name, Family.lookup? name = some (i.family, some i.variant) :=
  ⟨_, (parse_eq_ok_iff.1 h).1⟩

theorem assemble_eq_ok_iff {body : Text} {slots : List Relocatable} :
    assemble body = .ok slots ↔
      ∃ i, parse body = .ok i ∧ i.check = .ok () ∧ i.encode = .ok slots := by
  unfold assemble
  rw [Outcome.bind_eq_ok]
  constructor
  · rintro ⟨i, hi, h⟩
    obtain ⟨⟨⟩, hcheck, hencode⟩ := Outcome.bind_eq_ok.1 h
    exact ⟨i, hi, hcheck, hencode⟩
  · rintro ⟨i, hi, hcheck, hencode⟩
    exact ⟨i, hi, Outcome.bind_eq_ok.2 ⟨(), hcheck, hencode⟩⟩

theorem encode_eq_ok_iff {slots : List Relocatable} :
    i.encode = .ok slots ↔ ∃ format, i.family.format? i.modes = some format ∧
      slots = (format.fill i.registers i.variant).map .tryte ++
        format.extensions.map i.extension := by
  unfold encode
  split
  · rename_i hnone
    rw [hnone]
    exact ⟨nofun, fun ⟨_, h, _⟩ => (nomatch h)⟩
  · rename_i format hsome
    rw [hsome]
    constructor
    · intro h
      exact ⟨format, rfl, (Except.ok.inj h).symm⟩
    · rintro ⟨format', hformat, rfl⟩
      rw [Option.some.inj hformat]

theorem extension_operand {k : Fin 3} {o : Operand} (ho : i.operands[k.val]? = some o) :
    i.extension (.operand k) = i.immediate o := by
  change (i.operands[k.val]?.map i.immediate).getD (.tryte .zero) = i.immediate o
  rw [ho]
  rfl

end Instruction

end BalancedTernary.Assembly

namespace BalancedTernary.Disassembly

open Assembly

/-! ## Decoding what was encoded -/

/-- What `d` tells of the instruction `i`, whose trytes are `code` and end at `stop`. A register
comes back unless the format has no place for it, and an immediate is the tryte that carries it. -/
structure Reports (i : Instruction) (format : Format) (slots : List Relocatable) (code : Word)
    (stop : Nat) (d : Decoded) : Prop where
  family : d.family = i.family
  length : d.length = slots.length
  mnemonic : i.family.mnemonic? i.variant = some d.mnemonic
  lookup : Family.lookup? d.mnemonic.toList = some (i.family, some i.variant)
  modes : d.modes = i.modes
  registers : ∀ (k : Nat) (o : Operand) (r : Register),
    i.operands[k]? = some o → o.register? = some r →
      ∃ a, d.arguments[k]? = some a ∧
        a.value = if k = 0 ∧ i.family.omitsFirst i.modes then .unknown else .register r
  immediates : ∀ (k : Nat) (o : Operand), i.operands[k]? = some o → o.register? = none →
    ∃ a position e t, d.arguments[k]? = some a ∧
      format.extensions[position]? = some e ∧ e.carries k ∧
      slots[3 + position]? = some (i.immediate o) ∧ code[3 + position]? = some t ∧
      a.value =
        if i.family.isRelative then .branch t.toInt (stop + t.toInt) else .immediate t.toInt

theorem getElem?_arguments {modes : List Mode} {k : Nat} {mode : Mode} (h : modes[k]? = some mode)
    (f : Mode → Nat → Argument) :
    (modes.zipIdx.map fun (mode, index) => f mode index)[k]? = some (f mode k) := by
  rw [List.getElem?_map, List.getElem?_zipIdx, h, Nat.zero_add]
  rfl

theorem modes_arguments (family : Family) (format : Format) (c : Capture) (trytes : Word)
    (stop : Nat) :
    (format.modes.zipIdx.map fun (mode, index) =>
      argument family format c trytes stop mode index).map Argument.mode = format.modes := by
  rw [List.map_map]
  simp only [Function.comp_def, argument_mode]
  exact List.zipIdx_map_fst 0 format.modes

section Encoded

variable {i : Instruction} {format : Format} {rest : Word} {c : Capture} {stop : Nat}

/-- The registers that were written come back. -/
theorem argument_register_of_captures (hfits : format.Fits i.family)
    (hmodes : format.modes = i.modes) (hc : format.Captures i.registers i.variant c)
    {trytes : Word} {k : Fin 3} {o : Operand} {r : Register} (ho : i.operands[k.val]? = some o)
    (hr : o.register? = some r) :
    (argument i.family format c trytes stop o.mode k).value =
      if k.val = 0 ∧ i.family.omitsFirst i.modes then .unknown else .register r := by
  have hmode : o.mode.isRegister = true := by
    rw [Operand.isRegister_mode, hr]
    rfl
  have hplace : .register k ∈ format.trits ↔ ¬(k.val = 0 ∧ i.family.omitsFirst i.modes) := by
    rw [hfits.registers k, hmodes, Instruction.getElem?_modes, ho]
    simp only [Option.map_some, Option.any_some, hmode, true_and, Fin.ext_iff]
    rfl
  rw [argument_value_register hmode k, hc.registers k, Instruction.registers_of_operand ho hr]
  by_cases hk : k.val = 0 ∧ i.family.omitsFirst i.modes
  · rw [if_neg (fun h => hplace.1 h hk), if_pos hk]
  · rw [if_pos (hplace.2 hk), if_neg hk]

/-- An operand that is no register has an extension that carries it. -/
theorem extension_of_immediate (hfits : format.Fits i.family) (hmodes : format.modes = i.modes)
    {k : Fin 3} {o : Operand} (ho : i.operands[k.val]? = some o) (hr : o.register? = none) :
    ∃ position < format.extensions.length, format.extensions[position]? = some (.operand k) := by
  have hmem : .operand k ∈ format.extensions := by
    rw [hfits.carried k, hmodes, Instruction.getElem?_modes, ho]
    simp only [Option.map_some, Option.any_some, Operand.isRegister_mode, hr]
    rfl
  obtain ⟨position, hposition⟩ := List.mem_iff_getElem?.1 hmem
  exact ⟨position, (List.getElem?_eq_some_iff.1 hposition).1, hposition⟩

/-- The trytes of an instruction are recognised, whatever its extensions hold. -/
theorem reports_of_encode {p : String × Variant} (hp : p ∈ i.family.variants)
    (hvariant : p.2 = i.variant) (hmem : format ∈ i.family.formats)
    (hmodes : format.modes = i.modes) (hrest : rest.length = format.extensions.length)
    (address : Nat) (after : Word) :
    ∃ d, decode? address (format.fill i.registers i.variant ++ rest ++ after) = some d ∧
      Reports i format
        ((format.fill i.registers i.variant).map .tryte ++ format.extensions.map i.extension)
        (format.fill i.registers i.variant ++ rest) (address + format.length) d := by
  have hfits := Family.fits_of_mem hmem
  have hlead : (format.fill i.registers i.variant).length = 3 := Format.length_fill hfits.toReadable
  have hlength : (format.fill i.registers i.variant ++ rest).length = format.length := by
    rw [List.length_append, hlead, hrest, Format.length]
  obtain ⟨c, hmatch, hcaptures⟩ := Format.match?_fill hfits.toReadable i.registers i.variant
  obtain ⟨mnemonic, hmnemonic, hlookup⟩ := Family.lookup?_mnemonic hp
  rw [hvariant] at hmnemonic hlookup
  -- A variant with a mnemonic is zero wherever the format has no place for its trits.
  have hc : c.variant = i.variant := by
    rw [← hvariant] at hcaptures ⊢
    exact Family.variant_of_captures hfits hp hcaptures
  have hmode {k : Nat} {o : Operand} (ho : i.operands[k]? = some o) :
      format.modes[k]? = some o.mode := by
    rw [hmodes, Instruction.getElem?_modes, ho]
    rfl
  have hsmall {k : Nat} {o : Operand} (ho : i.operands[k]? = some o) : k < 3 :=
    (List.getElem?_eq_some_iff.1 (hmode ho)).1.trans_le hfits.few
  refine ⟨_, decode?_eq_some_iff.2 ⟨i.family, format, hmem, decodeFormat?_eq_some_iff.2
    ⟨?_, c, ?_, mnemonic, by rw [hc]; exact hmnemonic, rfl⟩⟩, ?_⟩
  · rw [List.length_append, hlength]
    exact Nat.le_add_right _ _
  · rw [List.append_assoc, List.take_left' hlead]
    exact hmatch
  · rw [List.take_left' hlength]
    refine ⟨rfl, ?_, hmnemonic, hlookup, (modes_arguments _ _ _ _ _).trans hmodes, ?_, ?_⟩
    · rw [List.length_append, List.length_map, List.length_map, hlead]
      rfl
    · intro k o r ho hr
      exact ⟨_, getElem?_arguments (hmode ho) _,
        argument_register_of_captures (k := ⟨k, hsmall ho⟩) hfits hmodes hcaptures ho hr⟩
    · intro k o ho hr
      obtain ⟨position, hposition, he⟩ :=
        extension_of_immediate (k := ⟨k, hsmall ho⟩) hfits hmodes ho hr
      obtain ⟨t, ht⟩ : ∃ t, rest[position]? = some t :=
        ⟨_, List.getElem?_eq_getElem (hrest ▸ hposition)⟩
      have hcode : (format.fill i.registers i.variant ++ rest)[3 + position]? = some t := by
        rw [List.getElem?_append_right (by omega), hlead, Nat.add_sub_cancel_left, ht]
      refine ⟨_, position, _, t, getElem?_arguments (hmode ho) _, he, decide_eq_true rfl, ?_,
        hcode, ?_⟩
      · rw [List.getElem?_append_right (by rw [List.length_map]; omega), List.length_map, hlead,
          Nat.add_sub_cancel_left, List.getElem?_map, he, Option.map_some,
          Instruction.extension_operand ho]
      · rw [argument_value_immediate (by rw [Operand.isRegister_mode, hr]; rfl),
          extensionValue_of_carries (k := ⟨k, hsmall ho⟩) hfits he hcode]

end Encoded

/-- The instruction set is uniquely decodable, and `decode?` inverts the encoder: the trytes of an
assembled instruction are recognised wherever they stand and whatever its references become. -/
theorem decode_assembled_unique :
    (∀ (body : Text) (i : Instruction) (slots : List Relocatable) (code before after : Word),
      Instruction.parse body = .ok i → Instruction.assemble body = .ok slots →
      List.Forall₂ Relocatable.Settles slots code →
      ∃ format d, i.family.format? i.modes = some format ∧
        decode? before.length ((before ++ code ++ after).drop before.length) = some d ∧
        Reports i format slots code (before.length + slots.length) d) ∧
    ∀ (lead : Word) (f g : Family) (F G : Format) (c d : Capture), lead.length = 3 →
      F ∈ f.formats → G ∈ g.formats → F.match? lead = some c → G.match? lead = some d →
      (f.mnemonic? c.variant).isSome → (g.mnemonic? d.variant).isSome → f = g ∧ F = G := by
  refine ⟨?_, fun lead f g F G c d hlen hF hG hc hd hf hg =>
    Family.format_unique hlen hF hG hc hd hf hg⟩
  intro body i slots code before after hparse hassemble hcode
  obtain ⟨i', hi', -, hencode⟩ := Instruction.assemble_eq_ok_iff.1 hassemble
  obtain rfl : i = i' := Except.ok.inj (hparse.symm.trans hi')
  obtain ⟨format, hformat, rfl⟩ := Instruction.encode_eq_ok_iff.1 hencode
  obtain ⟨hmem, hmodes⟩ := Family.mem_of_format? hformat
  -- References stand behind the first three trytes only, which are therefore as written.
  obtain ⟨rest, rfl, hrest⟩ := settles_append hcode
  obtain ⟨name, hname⟩ := Instruction.lookup?_of_parse hparse
  obtain ⟨p, hp, hvariant⟩ := Family.mem_variants_of_lookup? hname
  have hlength := hrest.length_eq.symm
  rw [List.length_map] at hlength
  obtain ⟨d, hd, hreports⟩ :=
    reports_of_encode hp hvariant hmem hmodes hlength before.length after
  refine ⟨format, d, hformat, ?_, ?_⟩
  · rw [List.append_assoc before, List.drop_left]
    exact hd
  · rw [List.length_append, List.length_map, List.length_map,
      Format.length_fill (Family.fits_of_mem hmem).toReadable]
    exact hreports

/-- A jump to two labels. -/
def jumpToLabels : Text := ['j', 'n', 'e', ' ', 'u', 'p', ',', ' ', 'd', 'o', 'w', 'n']

/-- Trytes of that jump for the displacements one and zero. -/
def jumpToLabelsCode : Word :=
  [⟨⟨.pos, .pos, .zero⟩, ⟨.zero, .zero, .pos⟩⟩, ⟨.zero, ⟨.neg, .zero, .zero⟩⟩, .zero,
    ⟨.zero, ⟨.zero, .zero, .pos⟩⟩, .zero]

/-- The mnemonic of the jump has a synonym, which is the one that comes back. -/
theorem decode_jumpToLabels :
    ∃ i slots format d, Instruction.parse jumpToLabels = .ok i ∧
      decode? 1 ((Tryte.zero :: jumpToLabelsCode ++ [Tryte.zero]).drop 1) = some d ∧
      Reports i format slots jumpToLabelsCode 6 d ∧ d.mnemonic = "jlg" := by
  have hparse : Instruction.parse jumpToLabels =
      .ok ⟨['j', 'n', 'e'], .jump, .of .pos .zero, [⟨['u', 'p'], false, .label ['u', 'p']⟩,
        ⟨['d', 'o', 'w', 'n'], false, .label ['d', 'o', 'w', 'n']⟩], false⟩ := by
    decide +kernel
  have hassemble : Instruction.assemble jumpToLabels =
      .ok [.tryte ⟨⟨.pos, .pos, .zero⟩, ⟨.zero, .zero, .pos⟩⟩,
        .tryte ⟨.zero, ⟨.neg, .zero, .zero⟩⟩, .tryte .zero, .displacement ['u', 'p'],
        .displacement ['d', 'o', 'w', 'n']] := by
    decide +kernel
  obtain ⟨format, d, -, hdecode, hreports⟩ := decode_assembled_unique.1 jumpToLabels _ _
    jumpToLabelsCode [.zero] [.zero] hparse hassemble
    (.cons rfl (.cons rfl (.cons rfl (.cons trivial (.cons trivial .nil)))))
  exact ⟨_, _, format, d, hparse, hdecode, hreports,
    Option.some.inj (hreports.mnemonic.symm.trans (by decide +kernel))⟩

end BalancedTernary.Disassembly
