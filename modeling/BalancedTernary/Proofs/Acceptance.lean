import BalancedTernary.Proofs.Reassembly

/-!
# Instructions that are accepted

An instruction is accepted when it has a destination mark just where its family asks for one, when
the number of its operands is in the range of the family, and when the family has a format for their
modes. The first of these that fails gives the kind of the fault. The trytes of an accepted
instruction are those that the format lays down, place by place.
-/

namespace BalancedTernary

/-! ## Modes as they are written -/

theorem Mode.text_injective {m m' : Mode} (h : m.text = m'.text) : m = m' := by
  cases m <;> cases m' <;> first | rfl | exact absurd h (by decide)

theorem Mode.text_ne_nil_and_no_comma (m : Mode) :
    m.text ≠ [] ∧ ∀ c ∈ m.text, (c == ',') = false := by
  have hcomma : m.text.all (fun c => !(c == ',')) = true := by cases m <;> decide
  refine ⟨by cases m <;> decide, fun c hc => ?_⟩
  simpa using List.all_eq_true.1 hcomma c hc

/-- The commas between modes tell where one ends and the next one starts. -/
theorem Mode.join_text_injective {modes modes' : List Mode}
    (h : Text.join [','] (modes.map Mode.text) = Text.join [','] (modes'.map Mode.text)) :
    modes = modes' := by
  have hfields (modes : List Mode) :
      Text.fields (· == ',') (Text.join [','] (modes.map Mode.text)) = modes.map Mode.text := by
    refine Text.fields_join (by decide) (List.forall_mem_singleton.2 (by decide)) ?_
    exact List.forall_mem_map.2 fun m _ => m.text_ne_nil_and_no_comma
  have htexts := hfields modes
  rw [h, hfields modes'] at htexts
  exact (List.map_injective_iff.2 fun _ _ => Mode.text_injective) htexts.symm

namespace Assembly

/-! ## The layout of an instruction -/

/-- The trit that an instruction has at a place of its format. -/
inductive PlaceHolds (i : Instruction) : FormatTrit → Trit → Prop where
  | fixed (t : Trit) : PlaceHolds i (.fixed t) t
  | register {k : Fin 3} {o : Operand} {r : Register} (ho : i.operands[k.val]? = some o)
      (hr : o.value = .register r) : PlaceHolds i (.register k) r
  | variant (k : Fin 2) : PlaceHolds i (.variant k) (i.variant.get k)

/-- The tryte for an operand that is no register. A label of a jump is a displacement, and every
other label an address. -/
inductive ImmediateHolds (family : Family) : Operand.Value → Relocatable → Prop where
  | literal (t : Tryte) : ImmediateHolds family (.literal t) (.tryte t)
  | displacement {l : Label} (h : family = .jump) :
      ImmediateHolds family (.label l) (.displacement l)
  | address {l : Label} (h : family ≠ .jump) : ImmediateHolds family (.label l) (.address l)

/-- The tryte that an instruction has for an extension of its format. -/
inductive ExtensionHolds (i : Instruction) : Extension → Relocatable → Prop where
  | operand {k : Fin 3} {o : Operand} {slot : Relocatable} (ho : i.operands[k.val]? = some o)
      (h : ImmediateHolds i.family o.value slot) : ExtensionHolds i (.operand k) slot
  | padding : ExtensionHolds i .padding (.tryte .zero)

/-- The trytes `slots` are those of the instruction in the given format. -/
def Instruction.LaidOut (i : Instruction) (format : Format) (slots : List Relocatable) : Prop :=
  ∃ (lead : Word) (rest : List Relocatable), slots = lead.map .tryte ++ rest ∧ lead.length = 3 ∧
    List.Forall₂ (PlaceHolds i) format.trits lead.trits ∧
    List.Forall₂ (ExtensionHolds i) format.extensions rest

/-- Two rows of trytes differ only where the format has a register or the value of an operand. -/
def DifferByOperands (format : Format) (slots slots' : List Relocatable) : Prop :=
  ∃ (lead lead' : Word) (rest rest' : List Relocatable), slots = lead.map .tryte ++ rest ∧
    slots' = lead'.map .tryte ++ rest' ∧ lead.length = 3 ∧ lead'.length = 3 ∧
    rest.length = rest'.length ∧
    (∀ k : Nat, lead.trits[k]? ≠ lead'.trits[k]? →
      ∃ operand, format.trits[k]? = some (FormatTrit.register operand)) ∧
    ∀ k : Nat, rest[k]? ≠ rest'[k]? →
      ∃ operand, format.extensions[k]? = some (Extension.operand operand)

theorem Operand.value_of_register? {o : Operand} {r : Register} (h : o.register? = some r) :
    o.value = .register r := by
  unfold register? at h
  split at h
  · rename_i r' hvalue
    rw [hvalue, Option.some.inj h]
  · cases h

/-- The kind of the fault, if there is one. -/
def faultKind? {α : Type} : Except Fault α → Option FaultKind
  | .error fault => some fault.kind
  | .ok _ => none

namespace Instruction

/-- The trytes of an instruction that was read, if it follows the rules of its family. -/
def trytes (i : Instruction) : Except Fault (List Relocatable) := do
  i.check
  i.encode

/-- The modes as they are written in a table. -/
def key (i : Instruction) : Text := Text.join [','] (i.modes.map Mode.text)

theorem assemble_of_parse {body : Text} {i : Instruction} (h : parse body = .ok i) :
    assemble body = i.trytes := by
  unfold assemble
  rw [h]
  rfl

theorem formatByKey?_key (i : Instruction) :
    i.family.formatByKey? i.key = i.family.format? i.modes := by
  unfold Family.formatByKey? Family.format?
  congr 1
  funext format
  rw [decide_eq_decide]
  constructor
  · exact Mode.join_text_injective
  · intro h
    rw [Format.key, h, key]

variable {i j : Instruction} {format : Format}

theorem laidOut_encode (hfits : format.Fits i.family) (hmodes : format.modes = i.modes) :
    i.LaidOut format ((format.fill i.registers i.variant).map .tryte ++
      format.extensions.map i.extension) := by
  -- An operand of a mode that the format asks for.
  have hoperand {k : Fin 3} {p : Mode → Bool} (h : format.modes[k.val]?.any p = true) :
      ∃ o, i.operands[k.val]? = some o ∧ p o.mode = true := by
    rw [hmodes, getElem?_modes, Option.any_map] at h
    obtain ⟨o, ho, hp⟩ := (Option.any_eq_true _ _).1 h
    exact ⟨o, ho, hp⟩
  refine ⟨_, _, rfl, Format.length_fill hfits.toReadable, ?_, ?_⟩
  · rw [Format.trits_fill hfits.toReadable, List.forall₂_map_right_iff, List.forall₂_same]
    intro place hplace
    cases place with
    | fixed t => exact .fixed t
    | register k =>
      obtain ⟨o, ho, hmode⟩ := hoperand ((hfits.registers k).1 hplace).1
      rw [Operand.isRegister_mode] at hmode
      obtain ⟨r, hr⟩ := Option.isSome_iff_exists.1 hmode
      change PlaceHolds i (.register k) (i.registers.get k)
      rw [registers_of_operand ho hr]
      exact .register ho (Operand.value_of_register? hr)
    | variant k => exact .variant k
  · rw [List.forall₂_map_right_iff, List.forall₂_same]
    intro extension hextension
    cases extension with
    | operand k =>
      obtain ⟨o, ho, hmode⟩ := hoperand ((hfits.carried k).1 hextension)
      rw [extension_operand ho]
      refine .operand ho ?_
      unfold immediate
      rw [Operand.isRegister_mode] at hmode
      unfold Operand.register? at hmode
      cases hvalue : o.value with
      | register r =>
        rw [hvalue] at hmode
        cases hmode
      | literal t => exact .literal t
      | label l =>
        dsimp only
        split
        · rename_i hrelative
          exact .displacement (Family.isRelative_iff.1 hrelative)
        · rename_i hrelative
          exact .address (mt Family.isRelative_iff.2 hrelative)
    | padding => exact .padding

theorem LaidOut.length_eq {slots : List Relocatable} (h : i.LaidOut format slots) :
    slots.length = format.length := by
  obtain ⟨lead, rest, rfl, hlead, -, hrest⟩ := h
  rw [List.length_append, List.length_map, hlead, ← hrest.length_eq, Format.length]

/-! ## The rules, one after the other -/

theorem trytes_of_destination (h : i.hasDestination ≠ i.family.hasDestination) :
    ∃ fault, i.trytes = .error fault ∧ fault.kind = .destinationMismatch := by
  unfold trytes check checkDestination
  cases hfamily : i.family.hasDestination <;> cases hmark : i.hasDestination
  · exact absurd (hmark.trans hfamily.symm) h
  · exact ⟨.destinationForbidden i.mnemonic, rfl, rfl⟩
  · exact ⟨.destinationMissing i.mnemonic, rfl, rfl⟩
  · exact absurd (hmark.trans hfamily.symm) h

theorem trytes_of_count (hdest : i.hasDestination = i.family.hasDestination) (h : ¬ i.CountFits) :
    ∃ fault, i.trytes = .error fault ∧ fault.kind = .wrongOperandCount := by
  have hcount : i.checkCount = .error (.operandCount i.mnemonic i.family.minOperands
      i.family.maxOperands i.operands.length) := by
    unfold checkCount
    unfold CountFits at h
    dsimp only
    rw [if_pos (by omega)]
  refine ⟨.operandCount i.mnemonic i.family.minOperands i.family.maxOperands i.operands.length,
    ?_, rfl⟩
  unfold trytes check
  rw [checkDestination_eq_ok hdest, hcount]
  rfl

/-- Whether it is the number of operands in memory or the table that refuses the modes, the kind of
the fault is the same. -/
theorem trytes_of_modes (hdest : i.hasDestination = i.family.hasDestination) (hcount : i.CountFits)
    (h : i.family.format? i.modes = none) :
    ∃ fault, i.trytes = .error fault ∧ fault.kind = .illegalOperands := by
  unfold trytes check checkMemory encode
  rw [checkDestination_eq_ok hdest, checkCount_eq_ok hcount, h]
  cases i.family.memoryRule? with
  | none => exact ⟨.operandModes i.text, rfl, rfl⟩
  | some rule =>
    by_cases hmemory : rule.limit < i.operands.countP (·.memory)
    · refine ⟨.memoryOperands i.text rule.reason, ?_, rfl⟩
      dsimp only
      rw [if_pos hmemory]
      rfl
    · refine ⟨.operandModes i.text, ?_, rfl⟩
      dsimp only
      rw [if_neg hmemory]
      rfl

theorem trytes_of_format (hdest : i.hasDestination = i.family.hasDestination)
    (h : i.family.format? i.modes = some format) : ∃ slots, i.trytes = .ok slots := by
  obtain ⟨hmem, hmodes⟩ := Family.mem_of_format? h
  unfold trytes
  rw [check_eq_ok (Family.fits_of_mem hmem) hmodes.symm hdest]
  exact ⟨_, encode_eq_ok_iff.2 ⟨format, h, rfl⟩⟩

/-- The trytes of an accepted instruction are laid out by the format of its modes. -/
theorem exists_laidOut {slots : List Relocatable} (h : i.trytes = .ok slots) :
    ∃ format, i.family.formatByKey? i.key = some format ∧ i.LaidOut format slots := by
  obtain ⟨⟨⟩, -, hencode⟩ := Outcome.bind_eq_ok.1 h
  obtain ⟨format, hformat, rfl⟩ := encode_eq_ok_iff.1 hencode
  obtain ⟨hmem, hmodes⟩ := Family.mem_of_format? hformat
  rw [formatByKey?_key]
  exact ⟨format, hformat, laidOut_encode (Family.fits_of_mem hmem) hmodes⟩

theorem family_variant_of_mnemonic {body body' : Text} (h : parse body = .ok i)
    (h' : parse body' = .ok j) (hmnemonic : i.mnemonic = j.mnemonic) :
    i.family = j.family ∧ i.variant = j.variant := by
  have hfind := find?_of_parse h
  rw [hmnemonic, find?_of_parse h'] at hfind
  obtain ⟨hfamily, hvariant⟩ := Prod.mk.inj (Option.some.inj hfind)
  exact ⟨hfamily.symm, Option.some.inj hvariant.symm⟩

/-- Equal mnemonics select the same variant, so only the operands are left to differ. -/
theorem LaidOut.differByOperands {slots slots' : List Relocatable} (hvariant : i.variant = j.variant)
    (h : i.LaidOut format slots) (h' : j.LaidOut format slots') :
    DifferByOperands format slots slots' := by
  obtain ⟨lead, rest, rfl, hlead, htrits, hrest⟩ := h
  obtain ⟨lead', rest', rfl, hlead', htrits', hrest'⟩ := h'
  refine ⟨lead, lead', rest, rest', rfl, rfl, hlead, hlead',
    hrest.length_eq.symm.trans hrest'.length_eq, fun k hk => ?_, fun k hk => ?_⟩
  · cases hplace : format.trits[k]? with
    | none =>
      -- Neither row has a trit there.
      have hlen := List.getElem?_eq_none_iff.1 hplace
      refine absurd ?_ hk
      rw [List.getElem?_eq_none (htrits.length_eq ▸ hlen),
        List.getElem?_eq_none (htrits'.length_eq ▸ hlen)]
    | some place =>
      obtain ⟨t, ht, hholds⟩ := Outcome.forall₂_getElem? htrits hplace
      obtain ⟨t', ht', hholds'⟩ := Outcome.forall₂_getElem? htrits' hplace
      rw [ht, ht'] at hk
      cases place with
      | fixed u =>
        cases hholds
        cases hholds'
        exact absurd rfl hk
      | register operand => exact ⟨operand, rfl⟩
      | variant index =>
        cases hholds
        cases hholds'
        exact absurd (by rw [hvariant]) hk
  · cases hextension : format.extensions[k]? with
    | none =>
      have hlen := List.getElem?_eq_none_iff.1 hextension
      refine absurd ?_ hk
      rw [List.getElem?_eq_none (hrest.length_eq ▸ hlen),
        List.getElem?_eq_none (hrest'.length_eq ▸ hlen)]
    | some extension =>
      obtain ⟨slot, hslot, hholds⟩ := Outcome.forall₂_getElem? hrest hextension
      obtain ⟨slot', hslot', hholds'⟩ := Outcome.forall₂_getElem? hrest' hextension
      rw [hslot, hslot'] at hk
      cases extension with
      | operand operand => exact ⟨operand, rfl⟩
      | padding =>
        cases hholds
        cases hholds'
        exact absurd rfl hk

/-- The rules are tried in this order, and the first that is broken gives the kind of the fault. -/
theorem faultKind?_trytes (i : Instruction) :
    faultKind? i.trytes =
      if i.hasDestination ≠ i.family.hasDestination then some .destinationMismatch
      else if ¬ i.CountFits then some .wrongOperandCount
      else if i.family.formatByKey? i.key = none then some .illegalOperands
      else none := by
  rw [formatByKey?_key]
  split
  · rename_i hdest
    obtain ⟨fault, htrytes, hkind⟩ := trytes_of_destination hdest
    rw [htrytes, faultKind?, hkind]
  · rename_i hdest
    have hdest := not_not.1 hdest
    split
    · rename_i hcount
      obtain ⟨fault, htrytes, hkind⟩ := trytes_of_count hdest hcount
      rw [htrytes, faultKind?, hkind]
    · rename_i hcount
      split
      · rename_i hformat
        obtain ⟨fault, htrytes, hkind⟩ := trytes_of_modes hdest (not_not.1 hcount) hformat
        rw [htrytes, faultKind?, hkind]
      · rename_i hformat
        obtain ⟨format, hformat⟩ := Option.ne_none_iff_exists'.1 hformat
        obtain ⟨slots, htrytes⟩ := trytes_of_format hdest hformat
        rw [htrytes, faultKind?]

/-- An instruction that was read is accepted or refused by the table alone. The kind of a fault is
that of the first rule broken, where the limit on operands in memory refuses no modes that have a
format; without a fault the trytes are laid out by the format. So accepted instructions with one
mnemonic and the same modes differ only where the format has places for operands. -/
theorem accepted_by_table {body : Text} {i : Instruction} (h : parse body = .ok i) :
    assemble body = i.trytes ∧
    (faultKind? i.trytes =
      if i.hasDestination ≠ i.family.hasDestination then some .destinationMismatch
      else if ¬ i.CountFits then some .wrongOperandCount
      else if i.family.formatByKey? i.key = none then some .illegalOperands
      else none) ∧
    (∀ format, i.family.formatByKey? i.key = some format → i.checkMemory = .ok ()) ∧
    (∀ slots, i.trytes = .ok slots → ∃ format, i.family.formatByKey? i.key = some format ∧
      slots.length = format.length ∧ i.LaidOut format slots) ∧
    ∀ (body' : Text) (j : Instruction) (slots slots' : List Relocatable),
      parse body' = .ok j → i.mnemonic = j.mnemonic → i.key = j.key →
      i.trytes = .ok slots → j.trytes = .ok slots' →
      ∃ format, i.family.formatByKey? i.key = some format ∧
        DifferByOperands format slots slots' := by
  refine ⟨assemble_of_parse h, faultKind?_trytes i, ?_, ?_, ?_⟩
  · intro format hformat
    rw [formatByKey?_key] at hformat
    obtain ⟨hmem, hmodes⟩ := Family.mem_of_format? hformat
    exact checkMemory_eq_ok (Family.fits_of_mem hmem) hmodes.symm
  · intro slots hslots
    obtain ⟨format, hformat, hlaid⟩ := exists_laidOut hslots
    exact ⟨format, hformat, hlaid.length_eq, hlaid⟩
  · intro body' j slots slots' h' hmnemonic hkey hslots hslots'
    obtain ⟨hfamily, hvariant⟩ := family_variant_of_mnemonic h h' hmnemonic
    obtain ⟨format, hformat, hlaid⟩ := exists_laidOut hslots
    obtain ⟨format', hformat', hlaid'⟩ := exists_laidOut hslots'
    rw [← hfamily, ← hkey, hformat] at hformat'
    obtain rfl := Option.some.inj hformat'
    exact ⟨format, hformat, hlaid.differByOperands hvariant hlaid'⟩

/-- An addition to memory, in the one format that leaves out the register of its first operand. -/
def addLabel : Text := "add r1, x → [r0]".toList

/-- The same with other operands. -/
def addLiteral : Text := "ADD rz -7 -> [R1]".toList

/-- Two operands in memory, which the rule on them refuses before the table is asked. -/
def memoryToMemory : Text := "mov [r0] → [r1]".toList

theorem addLabel_addLiteral_accepted :
    ∃ i j k format slots slots', parse addLabel = .ok i ∧ parse addLiteral = .ok j ∧
      parse memoryToMemory = .ok k ∧ i.trytes = .ok slots ∧ j.trytes = .ok slots' ∧
      i.LaidOut format slots ∧ slots.length = 4 ∧ DifferByOperands format slots slots' ∧
      faultKind? k.trytes = some .illegalOperands := by
  have hi : parse addLabel = .ok ⟨['a', 'd', 'd'], .add, .of .neg .zero,
      [⟨['r', '1'], false, .register .pos⟩, ⟨['x'], false, .label ['x']⟩,
        ⟨['[', 'r', '0', ']'], true, .register .zero⟩], true⟩ := by
    decide +kernel
  have hj : parse addLiteral = .ok ⟨['a', 'd', 'd'], .add, .of .neg .zero,
      [⟨['r', 'z'], false, .register .neg⟩,
        ⟨['-', '7'], false, .literal ⟨.zero, ⟨.neg, .pos, .neg⟩⟩⟩,
        ⟨['[', 'R', '1', ']'], true, .register .pos⟩], true⟩ := by
    decide +kernel
  have hk : parse memoryToMemory = .ok ⟨['m', 'o', 'v'], .move, .of .zero .zero,
      [⟨['[', 'r', '0', ']'], true, .register .zero⟩,
        ⟨['[', 'r', '1', ']'], true, .register .pos⟩], true⟩ := by
    decide +kernel
  obtain ⟨-, -, -, hlaid, hdiffer⟩ := accepted_by_table hi
  obtain ⟨-, hkind, -⟩ := accepted_by_table hk
  obtain ⟨format, hformat, hlength, hslots⟩ := hlaid _ rfl
  obtain ⟨format', hformat', hdiffer⟩ := hdiffer _ _ _ _ hj rfl rfl rfl rfl
  obtain rfl := Option.some.inj (hformat.symm.trans hformat')
  exact ⟨_, _, _, format, _, _, hi, hj, hk, rfl, rfl, hslots, rfl, hdiffer, hkind.trans rfl⟩

end Instruction

end Assembly

end BalancedTernary
