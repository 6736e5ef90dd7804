import BalancedTernary.Proofs.CheckedAssembly
import BalancedTernary.Proofs.Tiling

/-!
# Checked disassembly

Disassembly with every access by position checked: the trits of the first three trytes of an
instruction, its registers and the trytes that extend it, the instructions in the two loops over the
addresses of an image, and the slices that are printed. No position is out of range here either.
-/

namespace BalancedTernary

namespace Checked

open Disassembly

/-! ## Formats -/

/-- Reads the places of one tryte, the first of them at position `j`. The inner `none` stands for a
trit that differs from the fixed one. -/
def scanTryte (t : Tryte) (j : Nat) (c : Capture) : List FormatTrit → Option (Option Capture)
  | [] => some (some c)
  | place :: places => do
    let trit ← t.trits[j]?
    match c.read? trit place with
    | none => some none
    | some c => scanTryte t (j + 1) c places

def scanTrytes (c : Capture) : List (List FormatTrit × Tryte) → Option (Option Capture)
  | [] => some (some c)
  | (places, t) :: rest => do
    let read ← scanTryte t 0 c places
    match read with
    | none => some none
    | some c => scanTrytes c rest

def matchLead (format : Format) (opcode operand mode : Tryte) : Option (Option Capture) :=
  scanTrytes .empty ((tryteParts format).zip [opcode, operand, mode])

/-- What has been captured, if all trits agreed. -/
def agreed (result : Capture × Bool) : Option Capture := if result.2 then some result.1 else none

theorem match?_eq_agreed (format : Format) (lead : Word) :
    format.match? lead = agreed (format.scan lead) := by
  unfold Format.match? agreed
  obtain ⟨c, isAgreed⟩ := format.scan lead
  cases isAgreed <;> rfl

theorem agreed_scan_append (c : Capture) {places : List FormatTrit} {ts : List Trit}
    (h : places.length = ts.length) (places' : List FormatTrit) (ts' : List Trit) :
    agreed (c.scan (places ++ places') (ts ++ ts')) =
      (agreed (c.scan places ts)).bind fun c => agreed (c.scan places' ts') := by
  induction places generalizing c ts with
  | nil =>
    rw [List.length_eq_zero_iff.1 h.symm]
    rfl
  | cons place places ih =>
    match ts, h with
    | t :: ts, h =>
      simp only [List.cons_append, Capture.scan]
      cases c.read? t place with
      | none => rfl
      | some c => exact ih c (Nat.succ.inj h)

theorem scanTryte_eq_some {t : Tryte} {j : Nat} (c : Capture) {places : List FormatTrit}
    (h : j + places.length = 6) :
    scanTryte t j c places = some (agreed (c.scan places (t.trits.drop j))) := by
  induction places generalizing j c with
  | nil =>
    have hend : t.trits.drop j = [] := List.drop_eq_nil_of_le (by simp at h ⊢; omega)
    rw [hend]
    rfl
  | cons place places ih =>
    rw [List.length_cons] at h
    have hj : j < t.trits.length := by
      rw [Word.length_tryteTrits]
      omega
    rw [scanTryte, List.getElem?_eq_getElem hj, List.drop_eq_getElem_cons hj]
    show (match c.read? t.trits[j] place with
      | none => some none
      | some c => scanTryte t (j + 1) c places) = _
    rw [Capture.scan]
    cases c.read? t.trits[j] place with
    | none => rfl
    | some c => exact ih c (by omega)

theorem scanTrytes_eq_some (c : Capture) {parts : List (List FormatTrit × Tryte)}
    (h : ∀ part ∈ parts, part.1.length = 6) :
    scanTrytes c parts =
      some (agreed (c.scan (parts.flatMap Prod.fst) (Word.trits (parts.map Prod.snd)))) := by
  induction parts generalizing c with
  | nil => rfl
  | cons part parts ih =>
    obtain ⟨places, t⟩ := part
    rw [List.forall_mem_cons] at h
    have hplaces : places.length = t.trits.length := h.1
    rw [scanTrytes, scanTryte_eq_some c (by rw [Nat.zero_add]; exact h.1), List.flatMap_cons,
      List.map_cons, Word.trits_cons, agreed_scan_append c hplaces, List.drop_zero]
    show (match agreed (c.scan places t.trits) with
      | none => some none
      | some c => scanTrytes c parts) = _
    cases agreed (c.scan places t.trits) with
    | none => rfl
    | some c => exact ih c h.2

theorem matchLead_eq_some {format : Format} (h : format.Readable) (opcode operand mode : Tryte) :
    matchLead format opcode operand mode = some (format.match? [opcode, operand, mode]) := by
  unfold matchLead
  rw [scanTrytes_eq_some _ fun part hpart =>
    length_of_mem_tryteParts h part.1 (List.of_mem_zip hpart).1, match?_eq_agreed, Format.scan,
    ← flatten_tryteParts]
  rfl

/-! ## Instructions -/

/-- The trytes from `position` on that carry operands, each with the number of its operand. -/
def immediates (image : Word) (position : Nat) : List Extension → Option (List (Nat × Tryte))
  | [] => some []
  | .padding :: rest => immediates image (position + 1) rest
  | .operand k :: rest => do
    let t ← image[position]?
    let found ← immediates image (position + 1) rest
    return (k.val, t) :: found

def argument (family : Family) (capture : Capture) (found : List (Nat × Tryte)) (stop : Nat)
    (mode : Mode) (index : Nat) : Option Argument :=
  if mode.isRegister then do
    let register ← capture.registers[index]?
    return ⟨mode.isMemory,
      match register with
      | some register => .register register
      | none => .unknown⟩
  else
    let v := ((found.lookup index).map Tryte.toInt).getD 0
    some ⟨mode.isMemory, if family.isRelative then .branch v (stop + v) else .immediate v⟩

def decodeFormat (image : Word) (address : Nat) (opcode operand mode : Tryte) (family : Family)
    (format : Format) : Option (Option Decoded) :=
  if image.length < address + format.length then some none
  else do
    let captured ← matchLead format opcode operand mode
    match captured.bind fun capture => (family.mnemonic? capture.variant).map (capture, ·) with
    | none => some none
    | some (capture, mnemonic) =>
      let found ← immediates image (address + 3) format.extensions
      let arguments ← format.modes.zipIdx.mapM fun (mode, index) =>
        argument family capture found (address + format.length) mode index
      return some { family, mnemonic, arguments, length := format.length }

/-- The first answer in the list. -/
def firstSome {α β : Type} (run : α → Option (Option β)) : List α → Option (Option β)
  | [] => some none
  | a :: rest => do
    let answer ← run a
    match answer with
    | some b => some (some b)
    | none => firstSome run rest

/-- The instruction at `address`, if there is one. -/
def decode (image : Word) (address : Nat) : Option (Option Decoded) :=
  if address + 3 ≤ image.length then do
    let opcode ← image[address]?
    let operand ← image[address + 1]?
    let mode ← image[address + 2]?
    firstSome (fun family =>
      firstSome (decodeFormat image address opcode operand mode family) family.formats) Family.all
  else some none

/-- Each address with its tryte and what decodes there. -/
def sweep (image : Word) : Option (List Cell) :=
  (List.range image.length).mapM fun address => do
    let decoded ← decode image address
    let t ← image[address]?
    return (t, decoded)

theorem exists_immediates {image : Word} {position : Nat} {extensions : List Extension}
    (h : position + extensions.length ≤ image.length) :
    ∃ found, immediates image position extensions = some found ∧
      ∀ index, found.lookup index =
        (extensions.findIdx? (Extension.carries index)).bind fun k => image[position + k]? := by
  induction extensions generalizing position with
  | nil => exact ⟨[], rfl, fun _ => rfl⟩
  | cons e extensions ih =>
    rw [List.length_cons] at h
    obtain ⟨found, hfound, hlookup⟩ := @ih (position + 1) (by omega)
    -- What is carried further on stands one place further on.
    have hnext (index : Nat) : found.lookup index =
        ((extensions.findIdx? (Extension.carries index)).map (· + 1)).bind
          fun k => image[position + k]? := by
      rw [hlookup, Option.bind_map]
      congr 1
      funext k
      show image[position + 1 + k]? = image[position + (k + 1)]?
      rw [Nat.add_assoc, Nat.add_comm 1 k]
    cases e with
    | padding =>
      refine ⟨found, hfound, fun index => ?_⟩
      rw [hnext, List.findIdx?_cons]
      rfl
    | operand k =>
      have hposition : position < image.length := by omega
      refine ⟨(k.val, image[position]) :: found, ?_, fun index => ?_⟩
      · rw [immediates, List.getElem?_eq_getElem hposition, hfound]
        rfl
      · rw [List.lookup_cons, List.findIdx?_cons, hnext, Extension.carries]
        by_cases hk : k.val = index
        · simp [hk, hposition]
        · have hne : (index == k.val) = false := beq_false_of_ne (Ne.symm hk)
          simp [hk, hne]

theorem firstSome_eq_some {α β : Type} {run : α → Option (Option β)} {f : α → Option β}
    {xs : List α} (h : ∀ a ∈ xs, run a = some (f a)) :
    firstSome run xs = some (xs.findSome? f) := by
  induction xs with
  | nil => rfl
  | cons a xs ih =>
    rw [List.forall_mem_cons] at h
    rw [firstSome, h.1, List.findSome?_cons]
    cases hanswer : f a with
    | some b => rfl
    | none => exact ih h.2

theorem argument_eq_some {family : Family} {format : Format} {capture : Capture} {trytes : Word}
    {found : List (Nat × Tryte)} (stop : Nat) (mode : Mode) {index : Nat} (hindex : index < 3)
    (hfound : found.lookup index =
      (format.extensions.findIdx? (Extension.carries index)).bind fun k => trytes[3 + k]?) :
    argument family capture found stop mode index =
      some (Disassembly.argument family format capture trytes stop mode index) := by
  unfold argument Disassembly.argument
  rw [extensionValue_eq, ← hfound]
  split
  · rw [Vector.getElem?_eq_getElem hindex]
    rfl
  · rfl

/-- The trytes that extend an instruction are found in the image, as long as all of it is. -/
theorem lookup_eq_extension {image : Word} {address : Nat} {format : Format}
    {found : List (Nat × Tryte)} {index : Nat}
    (hlookup : found.lookup index = (format.extensions.findIdx? (Extension.carries index)).bind
      fun k => image[address + 3 + k]?) :
    found.lookup index = (format.extensions.findIdx? (Extension.carries index)).bind
      fun k => ((image.drop address).take format.length)[3 + k]? := by
  rw [hlookup]
  cases hposition : format.extensions.findIdx? (Extension.carries index) with
  | none => rfl
  | some k =>
    have hk := (List.findIdx?_eq_some_iff_findIdx_eq.1 hposition).1
    show image[address + 3 + k]? = ((image.drop address).take format.length)[3 + k]?
    rw [List.getElem?_take_of_lt (by unfold Format.length; omega), List.getElem?_drop,
      Nat.add_assoc]

theorem decodeFormat_eq_some {image : Word} {address : Nat} {opcode operand mode : Tryte}
    {rest : Word} (hlead : image.drop address = opcode :: operand :: mode :: rest) {family : Family}
    {format : Format} (hmem : format ∈ family.formats) :
    decodeFormat image address opcode operand mode family format =
      some (decodeFormat? address (image.drop address) family format) := by
  have hfits := Family.fits_of_mem hmem
  have hthree : ((image.drop address).take format.length).take 3 = [opcode, operand, mode] := by
    rw [List.take_take, Nat.min_eq_left (by unfold Format.length; omega), hlead]
    rfl
  have hshort : image.length < address + format.length ↔
      ((image.drop address).take format.length).length < format.length := by
    rw [List.length_take, List.length_drop]
    unfold Format.length
    omega
  unfold decodeFormat decodeFormat?
  dsimp only
  rw [hthree]
  by_cases hfit : image.length < address + format.length
  · rw [if_pos hfit, if_pos (hshort.1 hfit)]
  · rw [if_neg hfit, if_neg (mt hshort.2 hfit), matchLead_eq_some hfits.toReadable]
    cases format.match? [opcode, operand, mode] with
    | none => rfl
    | some capture =>
      cases hmnemonic : family.mnemonic? capture.variant with
      | none => simp [hmnemonic]
      | some mnemonic =>
        have hroom : address + 3 + format.extensions.length ≤ image.length := by
          unfold Format.length at hfit
          omega
        obtain ⟨found, hfound, hlookup⟩ := exists_immediates hroom
        have harguments : (format.modes.zipIdx.mapM fun (mode, index) =>
            argument family capture found (address + format.length) mode index) =
              some (format.modes.zipIdx.map fun (mode, index) =>
                Disassembly.argument family format capture
                  ((image.drop address).take format.length) (address + format.length) mode
                    index) := by
          apply mapM_eq_some
          intro p hp
          have hindex := List.snd_lt_of_mem_zipIdx hp
          have hfew := hfits.few
          exact argument_eq_some _ _ (by omega) (lookup_eq_extension (hlookup p.2))
        simp [hmnemonic, hfound, harguments]

theorem decode_eq_some (image : Word) (address : Nat) :
    decode image address = some (decode? address (image.drop address)) := by
  unfold decode
  split
  · rename_i hlong
    have hlead : image.drop address = image[address] :: image[address + 1] ::
        image[address + 2] :: image.drop (address + 3) := by
      rw [List.drop_eq_getElem_cons (by omega), List.drop_eq_getElem_cons (by omega),
        List.drop_eq_getElem_cons (by omega)]
    rw [List.getElem?_eq_getElem (by omega), List.getElem?_eq_getElem (by omega),
      List.getElem?_eq_getElem (by omega)]
    show firstSome _ _ = _
    exact firstSome_eq_some fun family _ => firstSome_eq_some fun format hformat =>
      decodeFormat_eq_some hlead hformat
  · -- There is no instruction of fewer than three trytes.
    rename_i hshort
    have hnone : decode? address (image.drop address) = none := by
      simp only [decode?, List.findSome?_eq_none_iff]
      intro family _ format _
      apply if_pos
      rw [List.length_take, List.length_drop]
      unfold Format.length
      omega
    rw [hnone]

theorem sweep_eq_some (image : Word) :
    sweep image = some (image.zip (Disassembly.sweep 0 image)) := by
  have hcell : ∀ address ∈ List.range image.length, (do
      let decoded ← decode image address
      let t ← image[address]?
      return (t, decoded)) =
        some (image.getD address .zero, decode? address (image.drop address)) := by
    intro address haddress
    rw [decode_eq_some, List.getD_eq_getElem?_getD,
      List.getElem?_eq_getElem (List.mem_range.1 haddress)]
    rfl
  unfold sweep
  rw [mapM_eq_some hcell, Option.some.injEq]
  apply List.ext_getElem
  · simp
  · intro k hk hk'
    have hlt : k < image.length := by simpa using hk
    have hsweep := getElem?_sweep 0 hlt
    rw [List.getElem?_eq_getElem (by simpa using hlt), Option.some.injEq, Nat.zero_add] at hsweep
    simp [hsweep, hlt]

/-! ## Rows -/

/-- The first address from `stop` on that holds an instruction in reach, or else `total`. -/
def dataStop (cells : List Cell) (total stop : Nat) : Option Nat :=
  if _h : stop < total then do
    let cell ← cells[stop]?
    if cell.2.isNone then dataStop cells total (stop + 1) else some stop
  else some stop
termination_by total - stop

/-- The addresses of the instructions in reach, each after the end of the one before it. -/
def codeAddresses (cells : List Cell) (total address : Nat) : Option (List Nat) :=
  if _h : address < total then do
    let cell ← cells[address]?
    match cell.2 with
    | none => codeAddresses cells total (address + 1)
    | some d =>
      -- Without this the loop would not end.
      if _hd : 0 < d.length then do
        let rest ← codeAddresses cells total (address + d.length)
        return address :: rest
      else none
  else some []
termination_by total - address

def rowsAt (image : Word) (cells : List Cell) (address : Nat) : Option (List Row) :=
  if _h : address < image.length then do
    let cell ← cells[address]?
    match cell.2 with
    | none => do
      let stop ← dataStop cells image.length address
      let trytes ← slice address stop image
      if _hs : address < stop then do
        let rest ← rowsAt image cells stop
        return .data address trytes :: rest
      else none
    | some d =>
      if _hd : 0 < d.length then do
        let rest ← rowsAt image cells (address + d.length)
        return .code address d :: rest
      else none
  else some []
termination_by image.length - address

theorem dataStop_eq_some {cells : List Cell} {total : Nat} (htotal : cells.length = total)
    (stop : Nat) :
    dataStop cells total stop =
      some (stop + ((cells.drop stop).takeWhile fun cell => cell.2.isNone).length) := by
  induction hleft : total - stop generalizing stop with
  | zero =>
    rw [dataStop, dif_neg (by omega), List.drop_eq_nil_of_le (by omega)]
    rfl
  | succ left ih =>
    have hstop : stop < cells.length := by omega
    rw [dataStop, dif_pos (by omega), List.getElem?_eq_getElem hstop,
      List.drop_eq_getElem_cons hstop, List.takeWhile_cons]
    show (if cells[stop].2.isNone then dataStop cells total (stop + 1) else some stop) = _
    cases hcell : cells[stop].2.isNone with
    | true =>
      rw [if_pos rfl, if_pos rfl, ih (stop + 1) (by omega), List.length_cons]
      congr 1
      omega
    | false => rfl

/-- A cell of data adds no instruction to the rows. -/
theorem codeAddresses_data_cons (address : Nat) (t : Tryte) (rest : List Cell) :
    (Row.ofCells address ((t, none) :: rest)).filterMap Row.codeAddress? =
      (Row.ofCells (address + 1) rest).filterMap Row.codeAddress? := by
  rw [Row.ofCells, List.filterMap_cons_none rfl]
  -- The run goes on with the next cell, or an instruction ends it.
  rcases rest with _ | ⟨⟨t, _ | d⟩, rest⟩
  · rfl
  · conv_rhs => rw [Row.ofCells, List.filterMap_cons_none rfl]
    have hnone : ((t, none) : Cell).2.isNone = true := rfl
    rw [List.takeWhile_cons, if_pos hnone, List.dropWhile_cons, if_pos hnone, List.length_cons]
    congr 2
    omega
  · rfl

theorem length_pos_of_cell {image : Word} {address : Nat} {t : Tryte} {d : Decoded}
    (h : (cells image)[address]? = some (t, some d)) : 0 < d.length := by
  have hshows : (Row.code address d).Shows image := decode?_of_mem_cells h
  exact hshows.bounds.1

/-- The cells after an instruction at `address`. -/
theorem drop_instruction {cells : List Cell} {d : Decoded} (hpos : 0 < d.length) (address : Nat) :
    (cells.drop (address + 1)).drop (d.length - 1) = cells.drop (address + d.length) := by
  rw [List.drop_drop, Nat.add_assoc, Nat.add_sub_cancel' hpos]

/-- The loop finds the instructions in reach that start a row. -/
theorem codeAddresses_eq_some (image : Word) (address : Nat) :
    codeAddresses (cells image) image.length address =
      some ((Row.ofCells address ((cells image).drop address)).filterMap Row.codeAddress?) := by
  have hlength := length_cells image
  induction hleft : image.length - address using Nat.strongRecOn generalizing address with
  | ind left ih =>
    by_cases h : address < image.length
    · have haddress : address < (cells image).length := by omega
      rw [codeAddresses, dif_pos h, List.getElem?_eq_getElem haddress,
        List.drop_eq_getElem_cons haddress]
      match hcell : (cells image)[address] with
      | (t, none) =>
        rw [codeAddresses_data_cons, ← ih _ (by omega) (address + 1) rfl]
        rfl
      | (t, some d) =>
        have hpos : 0 < d.length :=
          length_pos_of_cell (List.getElem?_eq_some_iff.2 ⟨haddress, hcell⟩)
        show (if _hd : 0 < d.length then do
            let rest ← codeAddresses (cells image) image.length (address + d.length)
            return address :: rest
          else none) = _
        rw [dif_pos hpos, ih _ (by omega) (address + d.length) rfl, Row.ofCells,
          drop_instruction hpos]
        rfl
    · rw [codeAddresses, dif_neg h, List.drop_eq_nil_of_le (by omega), Row.ofCells]
      rfl

/-- A run of data stops within the image, and its trytes are a slice of it. -/
theorem dataStop_run {image : Word} {address stop : Nat} {t : Tryte} {rest run : List Cell}
    (h : (cells image).drop address = (t, none) :: rest)
    (hrun : rest.takeWhile (fun cell => cell.2.isNone) = run)
    (hstop : stop = address + 1 + run.length) :
    dataStop (cells image) image.length address = some stop ∧
      slice address stop image = some (t :: run.map Prod.fst) ∧
        rest.dropWhile (fun cell => cell.2.isNone) = (cells image).drop stop := by
  have hsplit : rest = run ++ rest.dropWhile fun cell => cell.2.isNone := by
    rw [← hrun, List.takeWhile_append_dropWhile]
  have hnone : ((t, none) : Cell).2.isNone = true := rfl
  have hdrop := h
  rw [hsplit] at h
  obtain ⟨hshows, hlater, hbound⟩ := shows_run h.symm
  rw [← hstop] at hlater hbound
  refine ⟨?_, ?_, hlater⟩
  · rw [dataStop_eq_some (length_cells image), hdrop, List.takeWhile_cons, if_pos hnone, hrun,
      List.length_cons, Option.some.injEq]
    omega
  · have hcount : stop - address = (t :: run.map Prod.fst).length := by
      rw [List.length_cons, List.length_map]
      omega
    rw [slice_eq_some (by omega) hbound, hcount, hshows.2]

/-- The loop finds the rows: an instruction at a time, or all the data up to the next one. -/
theorem rowsAt_eq_some (image : Word) (address : Nat) :
    rowsAt image (cells image) address =
      some (Row.ofCells address ((cells image).drop address)) := by
  have hlength := length_cells image
  induction hleft : image.length - address using Nat.strongRecOn generalizing address with
  | ind left ih =>
    by_cases h : address < image.length
    · have haddress : address < (cells image).length := by omega
      have hdrop := List.drop_eq_getElem_cons haddress
      rw [rowsAt, dif_pos h, List.getElem?_eq_getElem haddress]
      match hcell : (cells image)[address] with
      | (t, none) =>
        rw [hcell] at hdrop
        obtain ⟨hstop, hslice, hlater⟩ := dataStop_run hdrop rfl rfl
        show (do
          let stop ← dataStop (cells image) image.length address
          let trytes ← slice address stop image
          if _hs : address < stop then do
            let rest ← rowsAt image (cells image) stop
            return Row.data address trytes :: rest
          else none) = _
        rw [hstop, Option.bind_eq_bind, Option.bind_some, hslice, Option.bind_eq_bind,
          Option.bind_some, dif_pos (by omega), ih _ (by omega) _ rfl, hdrop, Row.ofCells, hlater]
        rfl
      | (t, some d) =>
        rw [hcell] at hdrop
        have hpos : 0 < d.length :=
          length_pos_of_cell (List.getElem?_eq_some_iff.2 ⟨haddress, hcell⟩)
        show (if _hd : 0 < d.length then do
            let rest ← rowsAt image (cells image) (address + d.length)
            return Row.code address d :: rest
          else none) = _
        rw [dif_pos hpos, ih _ (by omega) (address + d.length) rfl, hdrop, Row.ofCells,
          drop_instruction hpos]
        rfl
    · rw [rowsAt, dif_neg h, List.drop_eq_nil_of_le (by omega), Row.ofCells]

/-! ## Lines -/

/-- The sources are all arguments up to the last, which is the destination. -/
def instructionText (labels : List Nat) (d : Decoded) : Option Text :=
  let arguments := d.arguments.map (Argument.text labels)
  if arguments.isEmpty then some d.mnemonic.toList
  else if d.family.hasDestination then do
    let sources ← slice 0 (arguments.length - 1) arguments
    let destination ← arguments[arguments.length - 1]?
    return mnemonicColumn d.mnemonic.toList
      (Text.join [',', ' '] sources ++ [' ', '→', ' '] ++ destination)
  else some (mnemonicColumn d.mnemonic.toList (Text.join [',', ' '] arguments))

def rowLines (labels : List Nat) : Row → Option (List Text)
  | .code address d => do
    let text ← instructionText labels d
    return [labelColumn (if address ∈ labels then labelName address ++ [':'] else []) text]
  | .data _ trytes => do
    let rows ← rowsFrom 8 trytes 0
    return rows.map dataLine

def printRows (labels : List Nat) (current : Option Assembly.Segment) :
    List Row → Option (List Text)
  | [] => some []
  | row :: rest => do
    let lines ← rowLines labels row
    let later ← printRows labels (some row.segment) rest
    return (if current = some row.segment then [] else [row.segment.text]) ++ lines ++ later

def disassemble (image : Word) : Option Text := do
  let swept ← sweep image
  let decoded := (swept.map Prod.snd).toArray
  let instructions := (decoded.zip (reached decoded)).toList.map fun (d, isReached) =>
    if isReached then d else none
  let cells := image.zip instructions
  let addresses ← codeAddresses cells image.length 0
  let labels := addresses.filter (branchTargets cells).contains
  let rows ← rowsAt image cells 0
  let lines ← printRows labels none rows
  return lines.flatMap fun line => line ++ ['\n']

theorem instructionText_eq_some (labels : List Nat) (d : Decoded) :
    instructionText labels d = some (d.text labels) := by
  unfold instructionText Decoded.text
  generalize d.arguments.map (Argument.text labels) = arguments
  dsimp only
  split
  · rfl
  rename_i hne
  split
  · have hlast : arguments.length - 1 < arguments.length := by
      have hpos : 0 < arguments.length := by
        rw [List.length_pos_iff]
        simpa using hne
      omega
    rw [slice_eq_some (Nat.zero_le _) (Nat.sub_le _ _), List.dropLast_eq_take,
      List.getLastD_eq_getLast?, List.getLast?_eq_getElem?, List.getElem?_eq_getElem hlast]
    rfl
  · rfl

theorem rowLines_eq_some (labels : List Nat) (row : Row) :
    rowLines labels row = some (row.lines labels) := by
  cases row with
  | code address d =>
    rw [rowLines, instructionText_eq_some]
    rfl
  | data address trytes =>
    rw [rowLines, rowsFrom_eq_some (by decide) _ (.inr rfl), Nat.zero_mul, List.drop_zero]
    rfl

theorem printRows_eq_some (labels : List Nat) (current : Option Assembly.Segment)
    (rows : List Row) :
    printRows labels current rows = some (Disassembly.printRows labels current rows) := by
  induction rows generalizing current with
  | nil => rfl
  | cons row rows ih =>
    rw [printRows, rowLines_eq_some, ih]
    rfl

theorem disassemble_eq_some (image : Word) :
    disassemble image = some (Disassembly.disassemble image) := by
  have hdecoded : ((image.zip (Disassembly.sweep 0 image)).map Prod.snd).toArray =
      decoded image := by
    rw [List.map_snd_zip (by simp)]
    rfl
  unfold disassemble
  rw [sweep_eq_some, Option.bind_eq_bind, Option.bind_some, hdecoded]
  show (do
    let addresses ← codeAddresses (cells image) image.length 0
    let rows ← rowsAt image (cells image) 0
    let lines ← printRows (addresses.filter (branchTargets (cells image)).contains) none rows
    return lines.flatMap fun line => line ++ ['\n']) = _
  rw [codeAddresses_eq_some, rowsAt_eq_some, List.drop_zero, Option.bind_eq_bind, Option.bind_some,
    Option.bind_eq_bind, Option.bind_some, printRows_eq_some]
  rfl

/-- No source text, configuration, image or width of a listing leads to a position out of range:
each checked run has an answer, and it is the one without checks. The ends of the rows of a listing
are numbers of 64 bits as well. -/
theorem positions_in_range :
    (∀ config source,
      (assemble config source).run = some (Assembly.assemble config source)) ∧
    (∀ width p, listing width p = some (Assembly.Listing.lines width p)) ∧
    (∀ width (code : Word) row, code.length < 2 ^ 62 →
      (row * Assembly.Listing.perLine width < code.length ∨ row = 0) →
        (row + 1) * Assembly.Listing.perLine width < 2 ^ 63) ∧
    ∀ image, disassemble image = some (Disassembly.disassemble image) := by
  refine ⟨fun config source => ?_, listing_eq_some, fun width code row hcode hrow => ?_,
    disassemble_eq_some⟩
  · rw [assemble_eq_of]
    rfl
  · exact row_stop_lt width hcode hrow

/-- The second row of two with one tryte each, and a first row when the width is the least number,
so that the columns left for trytes wrap around. -/
theorem narrow_and_wrapped_rows_in_range :
    (1 * Assembly.Listing.perLine 22 < ([.zero, .zero] : Word).length ∧
      (1 + 1) * Assembly.Listing.perLine 22 < 2 ^ 63) ∧
    (0 + 1) * Assembly.Listing.perLine Int64.minValue < 2 ^ 63 := by
  have hrow : 1 * Assembly.Listing.perLine 22 < ([.zero, .zero] : Word).length := by decide +kernel
  obtain ⟨-, -, hstop, -⟩ := positions_in_range
  exact ⟨⟨hrow, hstop 22 [.zero, .zero] 1 (by decide) (.inl hrow)⟩,
    hstop Int64.minValue [] 0 (by decide) (.inr rfl)⟩

end Checked

end BalancedTernary
