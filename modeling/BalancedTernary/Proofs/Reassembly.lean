import BalancedTernary.Proofs.Rendering

/-!
# Reassembling instructions

The text of a decoded instruction assembles to the trytes that it was decoded from. Two things do not
come back: a register that the format leaves out, for which there is no text, and the padding, which
is zero whatever it was.
-/

namespace BalancedTernary

open Assembly Text

namespace Assembly.Instruction

/-! ## Rules of a family -/

theorem isMemory_mode (o : Operand) : o.mode.isMemory = o.memory := by
  unfold Operand.mode
  cases o.value <;> cases o.memory <;> rfl

/-- No format has more operands in memory than its family allows. -/
theorem checkMemory_eq_ok {i : Instruction} {format : Format} (hfits : format.Fits i.family)
    (hmodes : i.modes = format.modes) : i.checkMemory = .ok () := by
  have hmemory : i.operands.countP (·.memory) = format.modes.countP Mode.isMemory := by
    rw [← hmodes, modes, List.countP_map]
    exact List.countP_congr fun o _ => by rw [Function.comp_apply, isMemory_mode]
  unfold checkMemory
  split
  · rfl
  · rename_i rule hrule
    rw [if_neg (by rw [hmemory]; exact Nat.not_lt.2 (hfits.memory rule hrule))]

theorem checkDestination_eq_ok {i : Instruction}
    (h : i.hasDestination = i.family.hasDestination) : i.checkDestination = .ok () := by
  unfold checkDestination
  rw [h]
  cases i.family.hasDestination <;> rfl

/-- The number of operands is in the range of the family. -/
def CountFits (i : Instruction) : Prop :=
  i.family.minOperands ≤ i.operands.length ∧ i.operands.length ≤ i.family.maxOperands

instance (i : Instruction) : Decidable i.CountFits := inferInstanceAs (Decidable (_ ∧ _))

theorem checkCount_eq_ok {i : Instruction} (h : i.CountFits) : i.checkCount = .ok () := by
  unfold checkCount
  unfold CountFits at h
  dsimp only
  rw [if_neg (by omega)]

/-- Operands in the modes of one of its formats follow the rules of the family. -/
theorem check_eq_ok {i : Instruction} {format : Format} (hfits : format.Fits i.family)
    (hmodes : i.modes = format.modes) (hdest : i.hasDestination = i.family.hasDestination) :
    i.check = .ok () := by
  have hcount : i.CountFits := by
    have hlength : i.operands.length = format.modes.length := by
      rw [← hmodes, modes, List.length_map]
    unfold CountFits
    rw [hlength]
    exact hfits.count
  unfold check
  rw [checkDestination_eq_ok hdest, checkCount_eq_ok hcount, checkMemory_eq_ok hfits hmodes]
  rfl

end Assembly.Instruction

namespace Disassembly

/-! ## The text of an instruction -/

theorem mnemonicColumn_eq (m rest : Text) :
    mnemonicColumn m rest = m ++ (List.replicate (8 - m.length + 1) ' ' ++ rest) := by
  unfold mnemonicColumn padRight
  rw [List.replicate_succ', List.append_assoc, List.append_assoc, List.singleton_append]

theorem isRun_column (k : Nat) : IsRun (List.replicate k ' ') := by
  intro c hc
  rw [List.eq_of_mem_replicate hc]
  decide

/-- The spaces of the column are the run in front of the first operand. -/
theorem spaced_column (k : Nat) {texts : List Text} (hne : texts ≠ []) :
    Spaced texts (List.replicate (k + 1) ' ' ++ join [',', ' '] texts) :=
  .join (List.cons_ne_nil _ _) (isRun_column _) hne

theorem isBlank_column {k : Nat} (s : Text) {t : Text} :
    ∀ c ∈ (List.replicate (k + 1) ' ' ++ s ++ t).head?, isBlank c = true :=
  forall_mem_head_cons (by decide) _

theorem body_mnemonicColumn {m rest : Text} (hm : Token m) (hrest : Body rest) :
    Body (mnemonicColumn m rest) := by
  rw [mnemonicColumn_eq, ← List.append_assoc]
  refine hm.body.append (fun c hc => ?_) hrest
  rw [List.eq_of_mem_replicate hc]
  exact List.mem_cons_self

namespace Decoded

variable {d : Decoded}

/-- The three ways to write an instruction. -/
theorem text_cases (labels : List Nat)
    (hdest : d.family.hasDestination = true → 2 ≤ d.arguments.length) :
    (d.text labels = d.mnemonic.toList ∧ d.arguments.map (Argument.text labels) = [] ∧
      d.family.hasDestination = false) ∨
    (d.text labels = mnemonicColumn d.mnemonic.toList
        (join [',', ' '] (d.arguments.map (Argument.text labels))) ∧
      d.arguments.map (Argument.text labels) ≠ [] ∧ d.family.hasDestination = false) ∨
    ∃ texts last, d.text labels = mnemonicColumn d.mnemonic.toList
        (join [',', ' '] texts ++ [' ', '→', ' '] ++ last) ∧
      d.arguments.map (Argument.text labels) = texts ++ [last] ∧ texts ≠ [] ∧
      d.family.hasDestination = true := by
  unfold Decoded.text
  cases hd : d.family.hasDestination with
  | false =>
    by_cases hnil : d.arguments.map (Argument.text labels) = []
    · exact .inl ⟨by rw [hnil]; rfl, hnil, rfl⟩
    · refine .inr (.inl ⟨?_, hnil, rfl⟩)
      dsimp only
      rw [if_neg (by simpa using hnil), if_neg Bool.false_ne_true]
  | true =>
    -- A destination is never the only operand, so there is a source to print before it.
    have hlength : 2 ≤ (d.arguments.map (Argument.text labels)).length := by
      rw [List.length_map]
      exact hdest hd
    obtain ⟨texts, last, hsplit⟩ := (List.eq_nil_or_concat _).resolve_left
      (List.ne_nil_of_length_pos (Nat.lt_of_lt_of_le Nat.zero_lt_two hlength))
    rw [List.concat_eq_append] at hsplit
    rw [hsplit] at hlength ⊢
    refine .inr (.inr ⟨texts, last, ?_, rfl, ?_, rfl⟩)
    · dsimp only
      rw [if_neg (by simp), if_pos rfl, List.dropLast_concat, List.getLastD_concat]
    · rintro rfl
      exact absurd hlength (Nat.not_succ_le_self 1)

theorem body_text (labels : List Nat) (hm : Token d.mnemonic.toList)
    (hdest : d.family.hasDestination = true → 2 ≤ d.arguments.length) :
    Body (d.text labels) := by
  have htokens : ∀ s ∈ d.arguments.map (Argument.text labels), Token s :=
    List.forall_mem_map.2 fun a _ => a.token_text labels
  obtain ⟨h, -, -⟩ | ⟨h, hne, -⟩ | ⟨texts, last, h, hsplit, hne, -⟩ := text_cases labels hdest
  · rw [h]
    exact hm.body
  · rw [h]
    exact body_mnemonicColumn hm (Body.join hne htokens)
  · rw [hsplit, List.forall_mem_append] at htokens
    rw [h]
    have hlast := htokens.2 last List.mem_cons_self
    exact body_mnemonicColumn hm ((Body.join hne htokens.1).append (by simp [joints]) hlast.body)

/-- The text is read as the mnemonic with the texts of the arguments. -/
theorem parse_text (labels : List Nat) {v : Variant} (hm : Token d.mnemonic.toList)
    (hdest : d.family.hasDestination = true → 2 ≤ d.arguments.length)
    (hlookup : Family.lookup? d.mnemonic.toList = some (d.family, some v)) :
    Instruction.parse (d.text labels) =
      (d.arguments.map (Argument.text labels)).mapM Operand.parse >>= fun operands =>
        .ok ⟨Text.lower d.mnemonic.toList, d.family, v, operands, d.family.hasDestination⟩ := by
  have hmnemonic : Unbroken d.mnemonic.toList := .of_token hm
  have htexts : ∀ s ∈ d.arguments.map (Argument.text labels), Unbroken s :=
    List.forall_mem_map.2 fun a _ => .of_token (a.token_text labels)
  obtain ⟨h, hargs, hd⟩ | ⟨h, hne, hd⟩ | ⟨texts, last, h, hargs, hne, hd⟩ := text_cases labels hdest
  · have hparse := Instruction.parse_sources hmnemonic hlookup .nil (List.forall_mem_nil _)
      (List.forall_mem_nil _) (fun c hc => absurd hc (Option.not_mem_none c))
    rw [List.append_nil, List.append_nil] at hparse
    rw [h, hargs, hd, hparse]
  · have hspaced := spaced_column (8 - d.mnemonic.toList.length) hne
    have hparse := Instruction.parse_sources hmnemonic hlookup hspaced htexts
      (List.forall_mem_nil _) (isBlank_column _)
    rw [List.append_nil] at hparse
    rw [h, hd, mnemonicColumn_eq, hparse]
  · rw [hargs, List.forall_mem_append] at htexts
    have hspaced := spaced_column (8 - d.mnemonic.toList.length) hne
    have hmark : [Instruction.arrow] ∈ Instruction.marks := by decide
    have hparse := Instruction.parse_destination hmnemonic hlookup hspaced htexts.1 isRun_space
      hmark isRun_space (htexts.2 last List.mem_cons_self) (List.forall_mem_nil _)
      (isBlank_column _)
    rw [h, hd, mnemonicColumn_eq, hargs, ← hparse]
    -- The mark takes the space before it to the sources and the one after it to the destination.
    simp only [List.append_assoc, List.cons_append, List.nil_append, List.append_nil]
    rfl

end Decoded

/-! ## Decoded instructions -/

/-- How an instruction was recognised. -/
structure Recognised (address : Nat) (trytes : Word) (d : Decoded) (format : Format)
    (c : Capture) : Prop where
  mem : format ∈ d.family.formats
  length : d.length = format.length
  enough : d.length ≤ trytes.length
  matched : format.match? (trytes.take 3) = some c
  mnemonic : d.family.mnemonic? c.variant = some d.mnemonic
  arguments : d.arguments = format.modes.zipIdx.map fun (mode, index) =>
    argument d.family format c (trytes.take d.length) (address + d.length) mode index

theorem exists_recognised {address : Nat} {trytes : Word} {d : Decoded}
    (h : decode? address trytes = some d) : ∃ format c, Recognised address trytes d format c := by
  obtain ⟨family, format, hmem, h⟩ := decode?_eq_some_iff.1 h
  obtain ⟨henough, c, hc, mnemonic, hmnemonic, rfl⟩ := decodeFormat?_eq_some_iff.1 h
  exact ⟨format, c, hmem, rfl, henough, hc, hmnemonic, rfl⟩

namespace Recognised

variable {address : Nat} {trytes : Word} {d : Decoded} {format : Format} {c : Capture}

theorem fits (h : Recognised address trytes d format c) : format.Fits d.family :=
  Family.fits_of_mem h.mem

theorem modes (h : Recognised address trytes d format c) : d.modes = format.modes := by
  unfold Decoded.modes
  rw [h.arguments, modes_arguments]

theorem length_arguments (h : Recognised address trytes d format c) :
    d.arguments.length = format.modes.length := by
  rw [h.arguments, List.length_map, List.length_zipIdx]

theorem getElem?_arguments (h : Recognised address trytes d format c) {k : Nat} {a : Argument}
    (ha : d.arguments[k]? = some a) : k < 3 ∧ format.modes[k]? = some a.mode ∧
      a = argument d.family format c (trytes.take d.length) (address + d.length) a.mode k := by
  have hk : k < format.modes.length := h.length_arguments ▸ (List.getElem?_eq_some_iff.1 ha).1
  have hmode := List.getElem?_eq_getElem hk
  rw [h.arguments, Disassembly.getElem?_arguments hmode] at ha
  rw [← Option.some.inj ha, argument_mode]
  exact ⟨hk.trans_le h.fits.few, hmode, rfl⟩

theorem exists_argument (h : Recognised address trytes d format c) {k : Nat} {p : Mode → Bool}
    (hk : format.modes[k]?.any p = true) :
    ∃ a, d.arguments[k]? = some a ∧ p a.mode = true := by
  obtain ⟨mode, hmode, hp⟩ := (Option.any_eq_true p _).1 hk
  have hlt : k < d.arguments.length := h.length_arguments ▸ (List.getElem?_eq_some_iff.1 hmode).1
  have ha := List.getElem?_eq_getElem hlt
  have hmode' := (h.getElem?_arguments ha).2.1
  refine ⟨_, ha, ?_⟩
  rw [← Option.some.inj (hmode.symm.trans hmode')]
  exact hp

theorem lead (h : Recognised address trytes d format c) : (trytes.take 3).length = 3 := by
  have henough := h.enough
  rw [h.length, Format.length] at henough
  rw [List.length_take]
  omega

theorem lookup? (h : Recognised address trytes d format c) :
    Family.lookup? d.mnemonic.toList = some (d.family, some c.variant) := by
  obtain ⟨mnemonic, hmnemonic, hlookup⟩ :=
    Family.lookup?_mnemonic (Family.mem_variants_of_mnemonic? h.mnemonic)
  rw [h.mnemonic] at hmnemonic
  rw [Option.some.inj hmnemonic]
  exact hlookup

theorem token_mnemonic (h : Recognised address trytes d format c) :
    Token d.mnemonic.toList :=
  (Family.token_of_mem_variants (Family.mem_variants_of_mnemonic? h.mnemonic)).1

theorem two_le_length (h : Recognised address trytes d format c)
    (hdest : d.family.hasDestination = true) : 2 ≤ d.arguments.length := by
  have hmin : ∀ family ∈ Family.all, family.hasDestination = true → 2 ≤ family.minOperands := by
    decide
  rw [h.length_arguments]
  exact (hmin _ d.family.mem_all hdest).trans h.fits.count.1

/-- A register is captured exactly when the format has a place for it. -/
theorem registers_isSome_iff (h : Recognised address trytes d format c) (k : Fin 3) :
    (c.registers.get k).isSome ↔ .register k ∈ format.trits := by
  obtain ⟨registers, -, hcaptures⟩ :=
    Format.exists_fill_of_match? h.fits.toReadable h.lead h.matched
  rw [hcaptures.registers k]
  split <;> simp [*]

theorem extensionValue_eq_toInt (format : Format) (code : Word) (index : Nat) :
    ∃ t : Tryte, t.toInt = extensionValue format code index := by
  rw [extensionValue_eq]
  cases (format.extensions.findIdx? (Extension.carries index)).bind fun position =>
    code[3 + position]? with
  | none => exact ⟨.zero, by decide⟩
  | some t => exact ⟨t, rfl⟩

section Values

variable {k : Nat} {a : Argument}

theorem value_of_register (h : Recognised address trytes d format c) (hk : k < 3)
    (ha : d.arguments[k]? = some a) (hmode : a.mode.isRegister = true) :
    a.value = match c.registers.get ⟨k, hk⟩ with
      | some r => .register r
      | none => .unknown := by
  rw [(h.getElem?_arguments ha).2.2]
  exact argument_value_register hmode ⟨k, hk⟩

theorem value_of_immediate (h : Recognised address trytes d format c)
    (ha : d.arguments[k]? = some a) (hmode : a.mode.isRegister = false) :
    a.value =
      if d.family.isRelative then
        .branch (extensionValue format (trytes.take d.length) k)
          ((address + d.length : Nat) + extensionValue format (trytes.take d.length) k)
      else .immediate (extensionValue format (trytes.take d.length) k) := by
  rw [(h.getElem?_arguments ha).2.2]
  exact argument_value_immediate hmode k

/-- Branches do not go through memory. -/
theorem memory_of_isRelative (h : Recognised address trytes d format c)
    (ha : d.arguments[k]? = some a) (hrelative : d.family.isRelative = true) :
    a.memory = false := by
  have hjump := Family.isRelative_iff.1 hrelative
  obtain ⟨-, hmode, heq⟩ := h.getElem?_arguments ha
  have hlimit := h.fits.memory ⟨0, "jump targets cannot be memory references"⟩ (by rw [hjump]; rfl)
  have hnone := List.countP_eq_zero.1 (Nat.le_zero.1 hlimit) a.mode (List.mem_of_getElem? hmode)
  rw [heq]
  exact Bool.eq_false_iff.2 hnone

end Values

/-- Only the one kind of format that leaves a register out has an argument that cannot be read. -/
theorem readable (h : Recognised address trytes d format c)
    (hknown : ¬ d.family.omitsFirst d.modes) : ∀ a ∈ d.arguments, a.Readable := by
  intro a ha
  obtain ⟨k, hk⟩ := List.mem_iff_getElem?.1 ha
  obtain ⟨hsmall, hmode, -⟩ := h.getElem?_arguments hk
  unfold Argument.Readable
  cases hregister : a.mode.isRegister with
  | true =>
    have hplace : .register ⟨k, hsmall⟩ ∈ format.trits := by
      rw [h.fits.registers ⟨k, hsmall⟩, hmode]
      exact ⟨hregister, fun hfirst => hknown (h.modes ▸ hfirst.2)⟩
    obtain ⟨r, hr⟩ := Option.isSome_iff_exists.1 ((h.registers_isSome_iff _).2 hplace)
    rw [h.value_of_register hsmall hk hregister, hr]
    trivial
  | false =>
    have hvalue := extensionValue_eq_toInt format (trytes.take d.length) k
    rw [h.value_of_immediate hk hregister]
    cases hrelative : d.family.isRelative with
    | true => exact ⟨h.memory_of_isRelative hk hrelative, hvalue⟩
    | false => exact hvalue

/-- That format prints its first argument as a register that is not known. -/
theorem exists_unknown (h : Recognised address trytes d format c)
    (homits : d.family.omitsFirst d.modes) :
    ∃ a, d.arguments[0]? = some a ∧ a.mode = .register ∧ a.value = .unknown := by
  have hmodes : format.modes = [.register, .immediate, .indirect] := h.modes ▸ homits.2
  have hpos : 0 < d.arguments.length := by
    rw [h.length_arguments, hmodes]
    decide
  have ha := List.getElem?_eq_getElem hpos
  obtain ⟨-, hmode, -⟩ := h.getElem?_arguments ha
  rw [hmodes] at hmode
  have hregister := (Option.some.inj hmode).symm
  have hplace : .register 0 ∉ format.trits := by
    rw [h.fits.registers 0]
    exact fun hplace => hplace.2 ⟨rfl, h.modes ▸ homits⟩
  have hnone : c.registers.get 0 = none := by
    rw [← Option.not_isSome_iff_eq_none, h.registers_isSome_iff]
    exact hplace
  refine ⟨_, ha, hregister, ?_⟩
  rw [h.value_of_register (by decide) ha (by rw [hregister]; rfl)]
  change (match c.registers.get 0 with
    | some r => Argument.Value.register r
    | none => .unknown) = .unknown
  rw [hnone]

theorem omitsFirst_iff (h : Recognised address trytes d format c) :
    d.family.omitsFirst d.modes ↔ ∃ a ∈ d.arguments, a.value = .unknown := by
  constructor
  · intro homits
    obtain ⟨a, ha, -, hvalue⟩ := h.exists_unknown homits
    exact ⟨a, List.mem_of_getElem? ha, hvalue⟩
  · rintro ⟨a, ha, hvalue⟩
    by_contra hknown
    have hreadable := h.readable hknown a ha
    unfold Argument.Readable at hreadable
    rw [hvalue] at hreadable
    exact hreadable

end Recognised

/-! ## Assembling the text -/

/-- What an instruction read from the text of `d` has of it. -/
structure Rereads (labels : List Nat) (d : Decoded) (c : Capture) (i : Instruction) : Prop where
  family : i.family = d.family
  variant : i.variant = c.variant
  destination : i.hasDestination = d.family.hasDestination
  operands : List.Forall₂
    (fun a o => o.memory = a.memory ∧ a.value.Denotes labels o.value) d.arguments i.operands

/-- `t` is what `slot` becomes in a fragment that ends at `stop`, when every one of the labels is at
the address in its name. -/
def Restores (labels : List Nat) (stop : Nat) : Relocatable → Tryte → Prop
  | .tryte s, t => s = t
  | .address _, _ => False
  | .displacement label, t =>
    ∃ target ∈ labels, label = labelName target ∧ t.toInt = (target : Int) - stop

/-- The trytes of an instruction with the padding, if there is one, set to zero. -/
def Decoded.canonical (d : Decoded) (code : Word) : Word :=
  if d.family.pads d.modes then code.set 3 .zero else code

section Assembling

variable {address : Nat} {trytes : Word} {d : Decoded} {format : Format} {c : Capture}
  {labels : List Nat} {i : Instruction}

theorem Recognised.exists_rereads (h : Recognised address trytes d format c)
    (hknown : ¬ d.family.omitsFirst d.modes) (labels : List Nat) :
    ∃ i, Instruction.parse (d.text labels) = .ok i ∧ Rereads labels d c i := by
  obtain ⟨operands, hparse, hall⟩ := Outcome.exists_mapM_eq_ok fun a ha =>
    Argument.parse_text labels (h.readable hknown a ha)
  refine ⟨⟨Text.lower d.mnemonic.toList, d.family, c.variant, operands, d.family.hasDestination⟩,
    ?_, rfl, rfl, rfl, hall⟩
  rw [Decoded.parse_text labels h.token_mnemonic h.two_le_length h.lookup?]
  refine Outcome.bind_eq_ok.2 ⟨operands, ?_, rfl⟩
  rw [List.mapM_map]
  exact hparse

theorem Rereads.modes (h : Rereads labels d c i) : i.modes = d.modes := by
  unfold Instruction.modes Decoded.modes
  have hall := h.operands
  generalize d.arguments = arguments at hall
  generalize i.operands = operands at hall
  induction hall with
  | nil => rfl
  | cons hao _ ih => rw [List.map_cons, List.map_cons, ih, Argument.mode_of_denotes hao.1 hao.2]

/-- The registers that were captured are those of the operands. -/
theorem Rereads.fill (h : Rereads labels d c i) (hd : Recognised address trytes d format c) :
    format.fill i.registers i.variant = trytes.take 3 := by
  rw [h.variant]
  apply Format.fill_of_match? hd.fits.toReadable hd.lead hd.matched
  intro k r hr
  -- What was captured has a place, so its argument shows it and the operand has it again.
  have hplace : .register k ∈ format.trits :=
    (hd.registers_isSome_iff k).1 (Option.isSome_of_eq_some hr)
  obtain ⟨a, ha, hmode⟩ := hd.exists_argument ((hd.fits.registers k).1 hplace).1
  obtain ⟨o, ho, -, hdenotes⟩ := Outcome.forall₂_getElem? h.operands ha
  have hvalue := hd.value_of_register k.isLt ha hmode
  rw [show c.registers.get ⟨k.val, k.isLt⟩ = some r from hr] at hvalue
  rw [hvalue] at hdenotes
  apply Instruction.registers_of_operand ho
  unfold Operand.register?
  rw [show o.value = .register r from hdenotes]

/-- The extension of an operand holds the tryte that it was decoded from. -/
theorem Rereads.restores_operand (h : Rereads labels d c i)
    (hd : Recognised address trytes d format c) {position : Nat} {k : Fin 3} {t : Tryte}
    (he : format.extensions[position]? = some (.operand k))
    (ht : (trytes.take d.length)[3 + position]? = some t) :
    Restores labels (address + d.length) (i.extension (.operand k)) t := by
  obtain ⟨a, ha, hmode⟩ :=
    hd.exists_argument ((hd.fits.carried k).1 (List.mem_of_getElem? he))
  obtain ⟨o, ho, -, hdenotes⟩ := Outcome.forall₂_getElem? h.operands ha
  have hvalue := hd.value_of_immediate ha (by simpa using hmode)
  rw [extensionValue_of_carries hd.fits he ht] at hvalue
  rw [Instruction.extension_operand ho, Instruction.immediate, h.family]
  have hliteral {u : Tryte} (hu : u.toInt = t.toInt) :
      Restores labels (address + d.length) (.tryte u) t := Tryte.toInt_injective hu
  rw [hvalue] at hdenotes
  cases hrelative : d.family.isRelative with
  | true =>
    rw [hrelative, if_pos rfl] at hdenotes
    dsimp only [Argument.Value.Denotes] at hdenotes
    split at hdenotes
    · -- A label: the displacement is the distance from the end to the target.
      rename_i htarget
      rw [hdenotes]
      refine ⟨_, htarget.2, rfl, ?_⟩
      rw [Int.toNat_of_nonneg htarget.1]
      omega
    · obtain ⟨u, hu, hut⟩ := hdenotes
      rw [hu]
      exact hliteral hut
  | false =>
    rw [hrelative, if_neg Bool.false_ne_true] at hdenotes
    obtain ⟨u, hu, hut⟩ := hdenotes
    rw [hu]
    exact hliteral hut

@[simp] theorem Decoded.length_canonical (d : Decoded) (code : Word) :
    (d.canonical code).length = code.length := by
  unfold canonical
  split
  · rw [List.length_set]
  · rfl

theorem Decoded.take_canonical (d : Decoded) (code : Word) :
    (d.canonical code).take 3 = code.take 3 := by
  unfold canonical
  split
  · rw [List.take_set_of_le (Nat.le_refl 3)]
  · rfl

/-- The trytes are canonical already when there is no padding or it is zero. -/
theorem Recognised.canonical_eq_self_iff (h : Recognised address trytes d format c) :
    d.canonical (trytes.take d.length) = trytes.take d.length ↔
      (d.family.pads d.modes → trytes[3]? = some .zero) := by
  unfold Decoded.canonical
  split
  · rename_i hpads
    have hextensions := h.fits.padded
    rw [← h.modes, if_pos hpads] at hextensions
    have hlength : 3 < d.length := by
      rw [h.length, Format.length, hextensions]
      decide
    have htake : (trytes.take d.length)[3]? = trytes[3]? := List.getElem?_take_of_lt hlength
    have hshort : 3 < (trytes.take d.length).length := by
      rwa [List.length_take_of_le h.enough]
    constructor
    · intro heq _
      rw [← htake, ← heq, List.getElem?_set_self hshort]
    · intro hzero
      apply List.ext_getElem?
      intro k
      by_cases hk : 3 = k
      · rw [← hk, List.getElem?_set_self hshort, htake, hzero hpads]
      · rw [List.getElem?_set_ne hk]
  · rename_i hpads
    exact ⟨fun _ h => absurd h hpads, fun _ => rfl⟩

/-- Each extension holds its tryte in the canonical form. -/
theorem Rereads.restores_extension (h : Rereads labels d c i)
    (hd : Recognised address trytes d format c) {position : Nat} {e : Extension} {t : Tryte}
    (he : format.extensions[position]? = some e)
    (ht : (d.canonical (trytes.take d.length))[3 + position]? = some t) :
    Restores labels (address + d.length) (i.extension e) t := by
  have hpadded := hd.fits.padded
  rw [← hd.modes] at hpadded
  unfold Decoded.canonical at ht
  by_cases hpads : d.family.pads d.modes
  · -- The padding is the first of the two extensions of its format.
    rw [if_pos hpads] at hpadded ht
    rw [hpadded] at he
    match position, he with
    | 0, rfl =>
      rw [List.getElem?_set, if_pos rfl] at ht
      split at ht
      · exact Option.some.inj ht
      · exact nomatch ht
    | 1, rfl =>
      rw [List.getElem?_set_ne (by decide)] at ht
      exact h.restores_operand hd (by rw [hpadded]; rfl) ht
  · rw [if_neg hpads] at hpadded ht
    cases e with
    | operand k => exact h.restores_operand hd he ht
    | padding => exact absurd (List.mem_of_getElem? he) hpadded

/-- The text of an instruction assembles to its trytes, as far as they are known and not padding. -/
theorem assemble_text (h : decode? address trytes = some d)
    (hknown : ¬ d.family.omitsFirst d.modes) (labels : List Nat) :
    ∃ slots, Instruction.assemble (d.text labels) = .ok slots ∧
      List.Forall₂ (Restores labels (address + d.length)) slots
        (d.canonical (trytes.take d.length)) := by
  obtain ⟨format, c, hd⟩ := exists_recognised h
  obtain ⟨i, hparse, hi⟩ := hd.exists_rereads hknown labels
  have hmodes : i.modes = format.modes := hi.modes.trans hd.modes
  have hfits : format.Fits i.family := hi.family ▸ hd.fits
  have hcheck := Instruction.check_eq_ok hfits hmodes (hi.destination.trans (by rw [hi.family]))
  have hformat : i.family.format? i.modes = some format := hmodes ▸ hfits.selected
  have hencode := Instruction.encode_eq_ok_iff.2 ⟨format, hformat, rfl⟩
  refine ⟨_, Instruction.assemble_eq_ok_iff.2 ⟨i, hparse, hcheck, hencode⟩, ?_⟩
  have hlength : d.length = 3 + format.extensions.length := hd.length
  have htake : (trytes.take d.length).length = d.length := List.length_take_of_le hd.enough
  -- Three trytes come from the format, and each of the others from an extension.
  have hlead : (d.canonical (trytes.take d.length)).take 3 = trytes.take 3 := by
    rw [d.take_canonical, List.take_take, Nat.min_eq_left (by omega)]
  rw [hi.fill hd, ← List.take_append_drop 3 (d.canonical (trytes.take d.length)), hlead]
  apply List.rel_append
  · exact List.forall₂_map_left_iff.2 (List.forall₂_same.2 fun _ _ => rfl)
  · apply Outcome.forall₂_of_getElem?
    · rw [List.length_map, List.length_drop, d.length_canonical, htake]
      omega
    · intro position slot t hslot ht
      rw [List.getElem?_map] at hslot
      obtain ⟨e, he, rfl⟩ := Option.map_eq_some_iff.1 hslot
      rw [List.getElem?_drop] at ht
      exact hi.restores_extension hd he ht

/-- Without the register that its format leaves out, the text of an instruction does not assemble. -/
theorem assemble_text_unknown (h : decode? address trytes = some d)
    (homits : d.family.omitsFirst d.modes) (labels : List Nat) :
    Instruction.assemble (d.text labels) = .error Argument.unknownRegister := by
  obtain ⟨format, c, hd⟩ := exists_recognised h
  obtain ⟨a, ha, hmode, hvalue⟩ := hd.exists_unknown homits
  obtain ⟨rest, hrest⟩ : ∃ rest, d.arguments = a :: rest :=
    List.head?_eq_some_iff.1 (by rw [List.head?_eq_getElem?, ha])
  unfold Instruction.assemble
  rw [Decoded.parse_text labels hd.token_mnemonic hd.two_le_length hd.lookup?, hrest,
    List.map_cons, List.mapM_cons, Argument.parse_text_unknown labels hmode hvalue]
  rfl

theorem not_omitsFirst_of_assemble {slots : List Relocatable}
    (h : decode? address trytes = some d) (hslots : Instruction.assemble (d.text labels) = .ok slots) :
    ¬ d.family.omitsFirst d.modes := by
  intro homits
  rw [assemble_text_unknown h homits labels] at hslots
  exact nomatch hslots

end Assembling

end Disassembly

end BalancedTernary
