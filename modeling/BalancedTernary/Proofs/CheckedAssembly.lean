import BalancedTernary.Assembly.Listing
import BalancedTernary.Proofs.CheckedAccess
import BalancedTernary.Proofs.Linking
import BalancedTernary.Proofs.Notation
import BalancedTernary.Proofs.Symbols

/-!
# Checked assembly

Assembly and the listing of a program with every access by position checked: the digits of a
numeral, the first tryte of a word, the registers of the operands, the places of a format, the
operands that extend an instruction, the fragment of a label, and the rows of a listing. No position
is out of range, so a checked run ends as the run that does not check.
-/

namespace BalancedTernary

namespace Checked

open Assembly

variable {α : Type}

/-! ## Numerals -/

/-- The digits, with `zero` in front, in a row of `count`. -/
def extend (zero : α) (count : Nat) (digits : List α) : Option (List α) :=
  (write (Vector.replicate count zero) (count - digits.length) (digits.map some)).map
    Vector.toList

theorem extend_eq_some (zero : α) {count : Nat} {digits : List α} (h : digits.length ≤ count) :
    extend zero count digits = some (Numeral.extend zero count digits) := by
  unfold extend
  rw [write_eq_some _ (by rw [List.length_map]; omega), Option.map_some, Option.some.injEq]
  apply List.ext_getElem
  · simp
    omega
  · intro k hk hk'
    grind [Numeral.extend]

/-- The word of `count` trytes whose digits stand in groups of `size`. -/
def pack (size : Nat) (ofDigits : List α → Word) (count : Nat) (digits : List α) : Option Word :=
  (groups size count digits).map fun gs => gs.flatMap ofDigits

theorem pack_eq_some {size : Nat} {ofDigits : List α → Word} (hnil : ofDigits [] = [])
    (happend : ∀ g rest, g.length = size → ofDigits (g ++ rest) = ofDigits g ++ ofDigits rest)
    {count : Nat} {digits : List α} (h : digits.length = size * count) :
    pack size ofDigits count digits = some (ofDigits digits) := by
  obtain ⟨gs, hgs, rfl, hsize⟩ := exists_groups h
  unfold pack
  rw [hgs, Option.map_some, Option.some.injEq]
  clear hgs h
  induction gs with
  | nil => exact hnil.symm
  | cons g gs ih =>
    rw [List.forall_mem_cons] at hsize
    rw [List.flatMap_cons, List.flatten_cons, happend _ _ hsize.1, ih hsize.2]

theorem ofTrits_append (g rest : List Trit) (h : g.length = 6) :
    Word.ofTrits (g ++ rest) = Word.ofTrits g ++ Word.ofTrits rest := by
  match g, h with
  | [a, b, c, d, e, f], _ => rfl

theorem ofTriads_append (g rest : List Triad) (h : g.length = 2) :
    Word.ofTriads (g ++ rest) = Word.ofTriads g ++ Word.ofTriads rest := by
  match g, h with
  | [a, b], _ => rfl

def ofInt (v : Int64) (w : Width) : Checked Numeral.Fault Word :=
  if v > w.max ∨ v < -w.max then throw (.integerTooBig v w)
  else liftM (pack 6 Word.ofTrits w.trytes.toInt.toNat (Trit.expand w.trits.toInt.toNat v.toInt))

def encodeTrits (literal body : Text) (w : Width) : Checked Numeral.Fault Word :=
  if body.isEmpty then throw (.noDigits literal)
  else if w.trits.toInt < body.length then throw (.tooManyTrits literal w)
  else
    match Numeral.readAll Trit.ofGlyph? body with
    | .error c => throw (.tritGlyph literal c)
    | .ok trits => do
      let digits ← extend .zero w.trits.toInt.toNat trits
      pack 6 Word.ofTrits w.trytes.toInt.toNat digits

def encodeTriads (literal body : Text) (w : Width) : Checked Numeral.Fault Word :=
  if body.isEmpty then throw (.noDigits literal)
  else if w.triads.toInt < body.length then throw (.tooManyTriads literal w)
  else
    match Numeral.readAll Triad.ofSymbol? body with
    | .error _ => throw (.triadSymbol literal)
    | .ok triads => do
      let digits ← extend .zero w.triads.toInt.toNat triads
      pack 2 Word.ofTriads w.trytes.toInt.toNat digits

def encodeDecimal (literal : Text) (w : Width) : Checked Numeral.Fault Word :=
  match Text.readDecimal literal with
  | .error .malformed => throw (.notInteger literal)
  | .error .overflow => throw (.literalTooBig literal w)
  | .ok v => ExceptT.adapt (fun _ => .literalTooBig literal w) (ofInt v w)

def encodeNumeral (literal : Text) (w : Width) : Checked Numeral.Fault Word :=
  match literal with
  | '0' :: 't' :: body => encodeTrits literal body w
  | '0' :: 'x' :: body => encodeTriads literal body w
  | _ => encodeDecimal literal w

section Widths

variable {w : Width} {n : Nat} (hw : w.trytes.toInt = n) (hn : n ≤ 6)

include hw hn

theorem ofInt_eq_of (v : Int64) : ofInt v w = of (Word.ofInt v w) := by
  have htrits := Width.toInt_trits hw hn
  unfold ofInt Word.ofInt
  split
  · rfl
  · rw [pack_eq_some rfl ofTrits_append (by rw [Trit.length_expand]; omega)]
    rfl

theorem encodeTrits_eq_of (literal body : Text) :
    encodeTrits literal body w = of (Numeral.encodeTrits literal body w) := by
  have htrits := Width.toInt_trits hw hn
  unfold encodeTrits Numeral.encodeTrits
  split
  · rfl
  split
  · rfl
  rename_i hfit
  cases hread : Numeral.readAll Trit.ofGlyph? body with
  | error c => rfl
  | ok trits =>
    have hlength := Numeral.length_readAll hread
    dsimp only
    rw [access_bind (extend_eq_some _ (by omega)),
      pack_eq_some rfl ofTrits_append (by rw [Numeral.length_extend]; omega)]
    rfl

theorem encodeTriads_eq_of (literal body : Text) :
    encodeTriads literal body w = of (Numeral.encodeTriads literal body w) := by
  have htriads := Width.toInt_triads hw hn
  unfold encodeTriads Numeral.encodeTriads
  split
  · rfl
  split
  · rfl
  rename_i hfit
  cases hread : Numeral.readAll Triad.ofSymbol? body with
  | error c => rfl
  | ok triads =>
    have hlength := Numeral.length_readAll hread
    dsimp only
    rw [access_bind (extend_eq_some _ (by omega)),
      pack_eq_some rfl ofTriads_append (by rw [Numeral.length_extend]; omega)]
    rfl

theorem encodeDecimal_eq_of (literal : Text) :
    encodeDecimal literal w = of (Numeral.encodeDecimal literal w) := by
  unfold encodeDecimal Numeral.encodeDecimal
  cases Text.readDecimal literal with
  | error fault => cases fault <;> rfl
  | ok v =>
    dsimp only
    rw [ofInt_eq_of hw hn, adapt_of]
    cases Word.ofInt v w <;> rfl

theorem encodeNumeral_eq_of (literal : Text) :
    encodeNumeral literal w = of (Numeral.encode literal w) := by
  unfold encodeNumeral
  split
  · exact encodeTrits_eq_of hw hn _ _
  · exact encodeTriads_eq_of hw hn _ _
  · rename_i htrits htriads
    unfold Numeral.encode
    split
    · exact absurd rfl (htrits _)
    · exact absurd rfl (htriads _)
    · exact encodeDecimal_eq_of hw hn _

end Widths

/-! ## Data -/

def encodeValue (body : Text) (w : Width) (value : Text) : Checked Fault (List Relocatable) :=
  if (Register.ofName? value).isSome then throw (.registerAsData body value)
  else if Label.isName value then
    pure (List.replicate (w.trytes.toInt.toNat - 1) (.tryte .zero) ++ [.address value])
  else do
    let word ← ExceptT.adapt .numeral (encodeNumeral value w)
    return word.map .tryte

def assembleData (body : Text) : Checked Fault (List Relocatable) :=
  match Text.fields isSeparator body with
  | [] => throw .emptyData
  | type :: values =>
    match Width.ofName? type with
    | none => throw (.dataType type)
    | some w =>
      if values.isEmpty then throw (.noValues w)
      else do
        let slots ← values.mapM (encodeValue body w)
        return slots.flatten

theorem encodeValue_eq_of {w : Width} {n : Nat} (hw : w.trytes.toInt = n) (hn : n ≤ 6)
    (body value : Text) : encodeValue body w value = of (Data.encodeValue body w value) := by
  unfold encodeValue Data.encodeValue
  split
  · rfl
  split
  · rfl
  rw [encodeNumeral_eq_of hw hn, adapt_of]
  cases Numeral.encode value w <;> rfl

theorem assembleData_eq_of (body : Text) : assembleData body = of (Data.assemble body) := by
  unfold assembleData Data.assemble
  cases Text.fields isSeparator body with
  | nil => rfl
  | cons type values =>
    dsimp only
    cases hw : Width.ofName? type with
    | none => rfl
    | some w =>
      obtain ⟨n, hn, -, hle⟩ := exists_trytes_of_ofName? hw
      dsimp only
      split
      · rfl
      rw [mapM_eq_of fun value _ => encodeValue_eq_of hn hle body value]
      cases values.mapM (Data.encodeValue body w) <;> rfl

/-! ## Operands -/

/-- A numeral gives the first tryte of its word. -/
def parseValue (s : Text) : Checked Numeral.Fault Operand.Value :=
  match Register.ofName? s with
  | some r => pure (.register r)
  | none =>
    if Label.isName s then pure (.label s)
    else do
      let word ← encodeNumeral s .tryte
      let t ← (word[0]? : Option Tryte)
      return .literal t

def parseOperand (s : Text) : Checked Fault Operand := do
  let value ← ExceptT.adapt (.operand s) (parseValue ((Operand.unbracket? s).getD s))
  return ⟨s, (Operand.unbracket? s).isSome, value⟩

theorem parseValue_eq_of (s : Text) : parseValue s = of (Operand.parseValue s) := by
  unfold parseValue Operand.parseValue
  cases Register.ofName? s with
  | some r => rfl
  | none =>
    dsimp only
    split
    · rfl
    rw [encodeNumeral_eq_of (w := .tryte) (n := 1) rfl (by decide)]
    cases hword : Numeral.encode s .tryte with
    | error fault => rfl
    | ok word =>
      have hlength := Numeral.length_encode (n := 1) rfl (by decide) hword
      obtain ⟨t, rfl⟩ := List.length_eq_one_iff.1 hlength
      rfl

theorem parseOperand_eq_of (s : Text) : parseOperand s = of (Operand.parse s) := by
  unfold parseOperand Operand.parse
  rw [parseValue_eq_of, adapt_of]
  cases Operand.parseValue ((Operand.unbracket? s).getD s) <;> rfl

/-! ## Instructions -/

def parseInstruction (body : Text) : Checked Fault Instruction :=
  let body := Instruction.unifyArrows body
  let mnemonic := body.takeWhile Instruction.inMnemonic
  match Family.lookup? mnemonic with
  | some (family, some variant) =>
    let name := Text.lower mnemonic
    match Instruction.operandTexts? (body.dropWhile Instruction.inMnemonic) with
    | none => throw (.destinationCount name)
    | some (texts, hasDestination) => do
      let operands ← texts.mapM parseOperand
      return ⟨name, family, variant, operands, hasDestination⟩
  | _ => throw (.instructionName mnemonic)

theorem parseInstruction_eq_of (body : Text) :
    parseInstruction body = of (Instruction.parse body) := by
  unfold parseInstruction Instruction.parse
  dsimp only
  generalize List.takeWhile Instruction.inMnemonic (Instruction.unifyArrows body) = mnemonic
  generalize List.dropWhile Instruction.inMnemonic (Instruction.unifyArrows body) = rest
  rcases Family.lookup? mnemonic with _ | ⟨family, _ | variant⟩
  · rfl
  · rfl
  · dsimp only
    rcases Instruction.operandTexts? rest with _ | ⟨texts, hasDestination⟩
    · rfl
    · exact bind_eq_of (mapM_eq_of fun s _ => parseOperand_eq_of s) fun _ _ => rfl

def tryteOfVector (v : Vector Trit 6) : Tryte := ⟨⟨v[0], v[1], v[2]⟩, ⟨v[3], v[4], v[5]⟩⟩

/-- The places of the opcode, operand and mode trytes. -/
def tryteParts (format : Format) : List (List FormatTrit) :=
  [format.trits.take 6, (format.trits.drop 6).take 6, format.trits.drop 12]

def fillTryte (registers : Registers) (v : Variant) (places : List FormatTrit) : Option Tryte :=
  (write (Vector.replicate 6 .zero) 0 (places.map fun place => some (place.fill registers v))).map
    tryteOfVector

def fill (format : Format) (registers : Registers) (v : Variant) : Option Word :=
  (tryteParts format).mapM (fillTryte registers v)

/-- The operands that are registers, each in the slot of its number. -/
def registers (operands : List Operand) : Option Registers :=
  write (Vector.replicate 3 .zero) 0 (operands.map Operand.register?)

def extensions (i : Instruction) (format : Format) : Option (List Relocatable) :=
  format.extensions.mapM fun
    | .operand k => i.operands[k.val]?.map i.immediate
    | .padding => some (.tryte .zero)

def encodeInstruction (i : Instruction) : Checked Fault (List Relocatable) :=
  match i.family.format? i.modes with
  | none => throw (.operandModes i.text)
  | some format => do
    let registers ← registers i.operands
    let lead ← fill format registers i.variant
    let rest ← extensions i format
    return lead.map .tryte ++ rest

def assembleInstruction (body : Text) : Checked Fault (List Relocatable) := do
  let i ← parseInstruction body
  of i.check
  encodeInstruction i

theorem flatten_tryteParts (format : Format) : (tryteParts format).flatten = format.trits := by
  unfold tryteParts
  rw [List.flatten_cons, List.flatten_cons, List.flatten_singleton,
    ← List.drop_drop (i := 6) (j := 6), List.take_append_drop, List.take_append_drop]

theorem length_of_mem_tryteParts {format : Format} (h : format.Readable) :
    ∀ part ∈ tryteParts format, part.length = 6 := by
  simp [tryteParts, h.length_trits]

/-- Six places fill a tryte, and no position of it is passed. -/
theorem exists_fillTryte {places : List FormatTrit} (h : places.length = 6)
    (registers : Registers) (v : Variant) :
    ∃ t, fillTryte registers v places = some t ∧
      Word.ofTrits (places.map (FormatTrit.fill registers v)) = [t] := by
  match places, h with
  | [a, b, c, d, e, f], _ => exact ⟨_, rfl, rfl⟩

theorem mapM_fillTryte {parts : List (List FormatTrit)} (h : ∀ part ∈ parts, part.length = 6)
    (registers : Registers) (v : Variant) :
    parts.mapM (fillTryte registers v) =
      some (Word.ofTrits (parts.flatten.map (FormatTrit.fill registers v))) := by
  induction parts with
  | nil => rfl
  | cons part parts ih =>
    rw [List.forall_mem_cons] at h
    obtain ⟨t, ht, htrits⟩ := exists_fillTryte h.1 registers v
    rw [List.mapM_cons, ht, ih h.2, List.flatten_cons, List.map_append,
      ofTrits_append _ _ (by rw [List.length_map, h.1]), htrits]
    rfl

theorem fill_eq_some {format : Format} (h : format.Readable) (registers : Registers) (v : Variant) :
    fill format registers v = some (format.fill registers v) := by
  unfold fill Format.fill
  rw [mapM_fillTryte (length_of_mem_tryteParts h), flatten_tryteParts]

theorem registers_eq_some {i : Instruction} (h : i.operands.length ≤ 3) :
    registers i.operands = some i.registers := by
  unfold registers Instruction.registers
  rw [write_eq_some _ (by rw [List.length_map]; omega), Option.some.injEq]
  ext k hk
  rw [Vector.getElem_ofFn, Vector.getElem_ofFn, if_pos (Nat.zero_le k), List.getElem?_map]
  cases i.operands[k]? <;> simp

theorem extensions_eq_some {i : Instruction} {format : Format} (hfits : format.Fits i.family)
    (hmodes : format.modes = i.modes) :
    extensions i format = some (format.extensions.map i.extension) := by
  apply mapM_eq_some
  intro e he
  cases e with
  | padding => rfl
  | operand k =>
    have hmode := (hfits.carried k).1 he
    rw [hmodes, Instruction.getElem?_modes] at hmode
    -- An operand that extends the instruction is one of its operands.
    cases ho : i.operands[k.val]? with
    | none =>
      rw [ho] at hmode
      exact absurd hmode (by simp)
    | some o =>
      simp only [Instruction.extension, ho]
      rfl

theorem encodeInstruction_eq_of (i : Instruction) : encodeInstruction i = of i.encode := by
  unfold encodeInstruction Instruction.encode
  cases hformat : i.family.format? i.modes with
  | none => rfl
  | some format =>
    obtain ⟨hmem, hmodes⟩ := Family.mem_of_format? hformat
    have hfits := Family.fits_of_mem hmem
    have hfew : i.operands.length ≤ 3 := by
      have hlength := congrArg List.length hmodes
      rw [Instruction.modes, List.length_map] at hlength
      exact hlength ▸ hfits.few
    dsimp only
    rw [access_bind (registers_eq_some hfew), access_bind (fill_eq_some hfits.toReadable _ _),
      access_bind (extensions_eq_some hfits hmodes)]
    rfl

theorem assembleInstruction_eq_of (body : Text) :
    assembleInstruction body = of (Instruction.assemble body) := by
  unfold assembleInstruction Instruction.assemble
  refine bind_eq_of (parseInstruction_eq_of body) fun i _ => ?_
  exact bind_eq_of rfl fun _ _ => encodeInstruction_eq_of i

/-! ## Fragments -/

def assembleStatement (s : Statement) (label : Option Label) (body : Text) :
    Checked Fault (List Relocatable) :=
  match s.segment with
  | .data => assembleData body
  | .code =>
    if body.isEmpty then throw (.noInstruction (label.getD []))
    else assembleInstruction body

def encodeStatement (s : Statement) (label : Option Label) (body : Text) :
    Checked Fault Fragment := do
  let trytes ← assembleStatement s label body
  return ⟨s.segment, s.line, label, body, trytes⟩

def readFragment (symbols : SymbolTable Nat) (position : Nat) (s : Statement) :
    Checked Fault (SymbolTable Nat × Fragment) := do
  let (label, body) ← of s.split
  let symbols ← of (declare symbols position label)
  let fragment ← encodeStatement s label body
  return (symbols, fragment)

def readFragments (symbols : SymbolTable Nat) (position : Nat) :
    List Statement → Checked LineFault (SymbolTable Nat × List Fragment)
  | [] => pure (symbols, [])
  | s :: rest => do
    let (symbols, fragment) ← ExceptT.adapt (⟨s.line, ·⟩) (readFragment symbols position s)
    let (symbols, fragments) ← readFragments symbols (position + 1) rest
    return (symbols, fragment :: fragments)

theorem assembleStatement_eq_of (s : Statement) (label : Option Label) (body : Text) :
    assembleStatement s label body = of (s.assemble label body) := by
  unfold assembleStatement Statement.assemble
  cases s.segment with
  | data => exact assembleData_eq_of body
  | code =>
    dsimp only
    split
    · rfl
    · exact assembleInstruction_eq_of body

theorem encodeStatement_eq_of (s : Statement) (label : Option Label) (body : Text) :
    encodeStatement s label body = of (s.encode label body) := by
  rw [Statement.encode_eq]
  exact bind_eq_of (assembleStatement_eq_of s label body) fun _ _ => rfl

theorem readFragment_eq_of (symbols : SymbolTable Nat) (position : Nat) (s : Statement) :
    readFragment symbols position s = of (Fragment.read symbols position s) := by
  unfold readFragment Fragment.read
  refine bind_eq_of rfl fun ⟨label, body⟩ _ => ?_
  refine bind_eq_of rfl fun symbols _ => ?_
  exact bind_eq_of (encodeStatement_eq_of s label body) fun _ _ => rfl

theorem readFragments_eq_of (symbols : SymbolTable Nat) (position : Nat)
    (statements : List Statement) :
    readFragments symbols position statements =
      of (Fragment.readFrom symbols position statements) := by
  induction statements generalizing symbols position with
  | nil => rfl
  | cons s rest ih =>
    rw [readFragments, Fragment.readFrom, readFragment_eq_of, adapt_of]
    cases Fragment.read symbols position s with
    | error fault => rfl
    | ok read =>
      obtain ⟨symbols, fragment⟩ := read
      show readFragments symbols (position + 1) rest >>= _ = _
      rw [ih]
      dsimp only
      cases Fragment.readFrom symbols (position + 1) rest <;> rfl

/-! ## Linking -/

/-- The address of the fragment at the position that the label stands for. -/
def target (symbols : Symbols) (label : Label) : Checked Fault Nat :=
  match symbols.table.lookup? label with
  | none => throw (.undefinedLabel label)
  | some position => do
    let f ← (symbols.fragments[position]? : Option PlacedFragment)
    return f.address

def referenceTryte (label : Label) (v : Int64) : Checked Fault Tryte := do
  let word ← ExceptT.adapt (.reference label) (ofInt v .tryte)
  let t ← (word[0]? : Option Tryte)
  return t

def resolve (symbols : Symbols) (base : Int64) (f : PlacedFragment) :
    Relocatable → Checked Fault Tryte
  | .tryte t => pure t
  | .address label => do
    let target ← target symbols label
    referenceTryte label (Int64.ofNat target + base)
  | .displacement label => do
    let target ← target symbols label
    referenceTryte label (Int64.ofNat target - Int64.ofNat f.stop)

def linkFragment (symbols : Symbols) (base : Int64) (f : PlacedFragment) :
    Checked LineFault LinkedFragment := do
  let code ← ExceptT.adapt (⟨f.line, ·⟩) (f.trytes.mapM (resolve symbols base f))
  return ⟨f, code⟩

def link (base : Int64) (table : SymbolTable Nat) (fragments : List Fragment) :
    Checked LineFault Program := do
  let placed := place fragments
  let linked ← placed.mapM (linkFragment ⟨table, placed⟩ base)
  return ⟨linked, table, base⟩

def assemble (config : Config) (source : Text) : Checked LineFault Program := do
  let (table, fragments) ← readFragments .empty 0 (statements config.comment source)
  link config.base table fragments

theorem referenceTryte_eq_of (label : Label) (v : Int64) :
    referenceTryte label v = of (Assembly.referenceTryte label v) := by
  unfold referenceTryte Assembly.referenceTryte
  rw [ofInt_eq_of (w := .tryte) (n := 1) rfl (by decide), adapt_of]
  cases hword : Word.ofInt v .tryte with
  | error fault => rfl
  | ok word =>
    have hlength := Word.length_of_ofInt (n := 1) rfl (by decide) hword
    obtain ⟨t, rfl⟩ := List.length_eq_one_iff.1 hlength
    rfl

section Symbols

variable {symbols : Symbols}
  (hknown : ∀ label position, symbols.table.lookup? label = some position →
    position < symbols.fragments.length)

include hknown

theorem target_eq_of (label : Label) :
    target symbols label = of (match symbols.address? label with
      | none => .error (.undefinedLabel label)
      | some address => .ok address) := by
  unfold target Symbols.address?
  cases hlookup : symbols.table.lookup? label with
  | none => rfl
  | some position =>
    have hposition := hknown label position hlookup
    dsimp only
    rw [access_bind (List.getElem?_eq_getElem hposition), Option.bind_some,
      List.getElem?_eq_getElem hposition]
    rfl

theorem resolve_eq_of (base : Int64) (f : PlacedFragment) (slot : Relocatable) :
    resolve symbols base f slot = of (f.resolve symbols base slot) := by
  cases slot with
  | tryte t => rfl
  | address label =>
    rw [resolve, PlacedFragment.resolve, target_eq_of hknown]
    cases symbols.address? label with
    | none => rfl
    | some target => exact referenceTryte_eq_of label _
  | displacement label =>
    rw [resolve, PlacedFragment.resolve, target_eq_of hknown]
    cases symbols.address? label with
    | none => rfl
    | some target => exact referenceTryte_eq_of label _

theorem linkFragment_eq_of (base : Int64) (f : PlacedFragment) :
    linkFragment symbols base f = of (f.link symbols base) := by
  unfold linkFragment PlacedFragment.link
  rw [mapM_eq_of fun slot _ => resolve_eq_of hknown base f slot, adapt_of]
  cases f.trytes.mapM (f.resolve symbols base) <;> rfl

end Symbols

/-- The positions in the table are those of fragments that were read after the label, so they are in
range only once all have been read. -/
theorem assemble_eq_of (config : Config) (source : Text) :
    assemble config source = of (Assembly.assemble config source) := by
  unfold assemble Assembly.assemble Fragment.readAll
  refine bind_eq_of (readFragments_eq_of _ _ _) fun ⟨table, fragments⟩ hread => ?_
  have hdeclare := (readFrom_eq_ok_iff.1 hread).2
  unfold link Assembly.link
  refine bind_eq_of (mapM_eq_of fun f _ => linkFragment_eq_of ?_ config.base f) fun _ _ => rfl
  intro label position hlookup
  obtain ⟨g, hg, -⟩ := (lookup?_eq_some_iff hdeclare).1 hlookup
  have hlength := congrArg List.length (toFragment_place fragments)
  rw [List.length_map] at hlength
  exact hlength ▸ (List.getElem?_eq_some_iff.1 hg).1

/-! ## Listings -/

def symbol (t : Triad) : Option Char :=
  if 0 ≤ t.toInt + 13 then Triad.symbols[(t.toInt + 13).toNat]? else none

def tryteSymbols (t : Tryte) : Option Text := [t.high, t.low].mapM symbol

def machineAddress (base : Int64) (address : Nat) : Option Text :=
  match Word.ofInt (Int64.ofNat address + base) .pair with
  | .ok word => (word.mapM tryteSymbols).map List.flatten
  | .error _ => some (List.replicate 4 '?')

def firstLine (base : Int64) (n : Nat) (f : LinkedFragment) (row : Word) : Option Text := do
  let machine ← machineAddress base f.address
  return Text.padLeft ' ' 5 (Text.natural f.address) ++ [' ', ' '] ++ machine ++ [' ', ' '] ++
    Listing.column (n * Listing.tryteColumns - 1) row.text ++ [' ', ' ', ';', ' '] ++
      Listing.sourceText f

def fragmentLines (base : Int64) (n : Nat) (f : LinkedFragment) : Option (List Text) := do
  let rows ← rowsFrom n f.code 0
  match rows with
  | [] => some []
  | first :: rest =>
    let line ← firstLine base n f first
    return line :: rest.map Listing.nextLine

def listing (width : Int64) (p : Program) : Option (List Text) := do
  let lines ← p.inOrder.mapM (fragmentLines p.base (Listing.perLine width))
  return lines.flatten.map (Text.trimEndBy (· == ' '))

theorem symbol_eq_some (t : Triad) : symbol t = some t.symbol := by
  have hbounds := t.toInt_bounds
  unfold symbol
  rw [if_pos (by omega), t.getElem?_symbols]

theorem machineAddress_eq_some (base : Int64) (address : Nat) :
    machineAddress base address = some (Listing.machineAddress base address) := by
  unfold machineAddress Listing.machineAddress
  cases Word.ofInt (Int64.ofNat address + base) .pair with
  | error fault => rfl
  | ok word =>
    have htryte (t : Tryte) : tryteSymbols t = some t.symbols :=
      mapM_eq_some fun half _ => symbol_eq_some half
    dsimp only
    rw [mapM_eq_some fun t _ => htryte t]
    rfl

theorem perLine_pos (width : Int64) : 0 < Listing.perLine width := by
  unfold Listing.perLine
  dsimp only
  split
  · decide
  · rename_i hcount
    rw [Int64.lt_iff_toInt_lt] at hcount
    have hone : (1 : Int64).toInt = 1 := rfl
    omega

theorem fragmentLines_eq_some (base : Int64) {n : Nat} (hn : 0 < n) (f : LinkedFragment) :
    fragmentLines base n f = some (Listing.fragmentLines base n f) := by
  unfold fragmentLines Listing.fragmentLines
  rw [rowsFrom_eq_some hn _ (.inr rfl), Nat.zero_mul, List.drop_zero]
  cases f.code.rows n with
  | nil => rfl
  | cons first rest =>
    have hfirst : firstLine base n f first = some (Listing.firstLine base n f first) := by
      unfold firstLine
      rw [machineAddress_eq_some]
      rfl
    show (firstLine base n f first >>= _) = _
    rw [hfirst]
    rfl

theorem listing_eq_some (width : Int64) (p : Program) :
    listing width p = some (Listing.lines width p) := by
  unfold listing Listing.lines
  rw [mapM_eq_some fun f _ => fragmentLines_eq_some p.base (perLine_pos width) f]
  rfl

theorem perLine_le (width : Int64) : Listing.perLine width ≤ 2 ^ 61 := by
  unfold Listing.perLine
  dsimp only
  split
  · decide
  · have hseven : (7 : Int64).toInt = 7 := rfl
    have hlt := (width - 15).toInt_lt
    -- Seven times the quotient is the dividend, up to a remainder.
    have hquotient := Int.mul_tdiv_add_tmod (width - 15).toInt 7
    have hremainder := Int.lt_tmod_of_pos (width - 15).toInt (b := 7) (by decide)
    rw [Int64.toInt_div_of_ne_right _ _ (by decide), hseven]
    omega

/-- The end of a row, before it is cut off at the end of the code, is a number of 64 bits. -/
theorem row_stop_lt (width : Int64) {row length : Nat} (hlength : length < 2 ^ 62)
    (hrow : row * Listing.perLine width < length ∨ row = 0) :
    (row + 1) * Listing.perLine width < 2 ^ 63 := by
  have hle := perLine_le width
  rw [Nat.succ_mul]
  obtain hrow | rfl := hrow
  · omega
  · rw [Nat.zero_mul]
    omega

end Checked

end BalancedTernary
