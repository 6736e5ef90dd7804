import BalancedTernary.Machine.Format
import BalancedTernary.Proofs.Numeral

/-!
# Filling and scanning formats

`Capture.scan` reads back what `FormatTrit.fill` writes. When no register and no trit of the variant
has two places in a format, the trits that it accepts are those that it writes, and no others.
-/

namespace BalancedTernary

namespace FormatTrit

/-- Whether something is read at the place. -/
def isCapture : FormatTrit → Bool
  | fixed _ => false
  | register _ | variant _ => true

/-- The trit that stands at a place whatever the registers are, as far as the variant is known. -/
def settled? (v : Option Variant) : FormatTrit → Option Trit
  | fixed t => some t
  | register _ => none
  | variant i => v.map (·.get i)

theorem fill_of_settled {v? : Option Variant} {registers : Registers} {v : Variant}
    {place : FormatTrit} {t : Trit} (hv : ∀ u ∈ v?, u = v) (h : place.settled? v? = some t) :
    place.fill registers v = t := by
  cases place with
  | fixed t' => exact Option.some.inj h
  | register i => exact nomatch h
  | variant i =>
    obtain ⟨u, hu, rfl⟩ := Option.map_eq_some_iff.1 h
    rw [hv u hu]
    rfl

/-- Whether two rows of places have different settled trits somewhere. -/
def clash (v u : Option Variant) : List FormatTrit → List FormatTrit → Bool
  | place :: places, other :: others =>
    match place.settled? v, other.settled? u with
    | some s, some t => if s = t then clash v u places others else true
    | _, _ => clash v u places others
  | _, _ => false

theorem fill_ne_of_clash {v? u? : Option Variant} {r s : Registers} {v u : Variant}
    (hv : ∀ x ∈ v?, x = v) (hu : ∀ x ∈ u?, x = u) {places others : List FormatTrit}
    (h : clash v? u? places others = true) :
    places.map (fill r v) ≠ others.map (fill s u) := by
  fun_induction clash v? u? places others with
  | case1 place places other others t hplace hother ih =>
    intro he
    rw [List.map_cons, List.map_cons, List.cons.injEq] at he
    exact ih h he.2
  | case2 place places other others p q hother hplace hne =>
    intro he
    rw [List.map_cons, List.map_cons, List.cons.injEq, fill_of_settled hv hplace,
      fill_of_settled hu hother] at he
    exact hne he.1
  | case3 place places other others _ ih =>
    intro he
    rw [List.map_cons, List.map_cons, List.cons.injEq] at he
    exact ih h he.2
  | case4 => exact nomatch h

end FormatTrit

namespace Capture

variable {c c' : Capture} {t : Trit} {place : FormatTrit} {places : List FormatTrit}

theorem registers_empty (i : Fin 3) : empty.registers.get i = none := by
  revert i
  decide

theorem variant_empty (i : Fin 2) : empty.variant.get i = .zero := by
  revert i
  decide

/-! ## One place -/

theorem read?_fixed {want : Trit} (h : c.read? t (.fixed want) = some c') : t = want ∧ c' = c := by
  change (if t = want then some c else none) = some c' at h
  split at h
  · rename_i ht
    exact ⟨ht, (Option.some.inj h).symm⟩
  · exact nomatch h

theorem registers_of_read? (h : c.read? t place = some c') (i : Fin 3) :
    c'.registers.get i = if place = .register i then some t else c.registers.get i := by
  cases place with
  | fixed want =>
    rw [(read?_fixed h).2, if_neg nofun]
  | register j =>
    rw [← Option.some.inj h]
    by_cases hij : j = i
    · rw [hij, if_pos rfl]
      exact Vector.getElem_set_self i.isLt
    · rw [if_neg (fun he => hij (FormatTrit.register.inj he))]
      exact Vector.getElem_set_ne j.isLt i.isLt (fun he => hij (Fin.ext he))
  | variant j =>
    rw [← Option.some.inj h, if_neg nofun]

theorem variant_of_read? (h : c.read? t place = some c') (i : Fin 2) :
    c'.variant.get i = if place = .variant i then t else c.variant.get i := by
  cases place with
  | fixed want =>
    rw [(read?_fixed h).2, if_neg nofun]
  | register j =>
    rw [← Option.some.inj h, if_neg nofun]
  | variant j =>
    rw [← Option.some.inj h]
    by_cases hij : j = i
    · rw [hij, if_pos rfl]
      exact Vector.getElem_set_self i.isLt
    · rw [if_neg (fun he => hij (FormatTrit.variant.inj he))]
      exact Vector.getElem_set_ne j.isLt i.isLt (fun he => hij (Fin.ext he))

theorem read?_fill (c : Capture) (registers : Registers) (v : Variant) (place : FormatTrit) :
    ∃ c', c.read? (place.fill registers v) place = some c' := by
  cases place with
  | fixed want => exact ⟨c, if_pos rfl⟩
  | register i => exact ⟨_, rfl⟩
  | variant i => exact ⟨_, rfl⟩

/-! ## All places -/

/-- A scan changes only the registers that it reads. -/
theorem scan_registers_of_notMem {i : Fin 3} (h : .register i ∉ places) (c : Capture)
    (ts : List Trit) : (c.scan places ts).1.registers.get i = c.registers.get i := by
  fun_induction scan c places ts with
  | case1 c place places t ts c' hread ih =>
    rw [List.mem_cons, not_or] at h
    rw [ih h.2, registers_of_read? hread, if_neg (Ne.symm h.1)]
  | case2 => rfl
  | case3 => rfl

/-- A scan changes only the trits of the variant that it reads. -/
theorem scan_variant_of_notMem {i : Fin 2} (h : .variant i ∉ places) (c : Capture)
    (ts : List Trit) : (c.scan places ts).1.variant.get i = c.variant.get i := by
  fun_induction scan c places ts with
  | case1 c place places t ts c' hread ih =>
    rw [List.mem_cons, not_or] at h
    rw [ih h.2, variant_of_read? hread, if_neg (Ne.symm h.1)]
  | case2 => rfl
  | case3 => rfl

/-- What `fill` writes is accepted, and every register and every trit of the variant that has a
place is read back. -/
theorem scan_fill (c : Capture) (registers : Registers) (v : Variant) (places : List FormatTrit) :
    ∃ c', c.scan places (places.map (FormatTrit.fill registers v)) = (c', true) ∧
      (∀ i : Fin 3, .register i ∈ places → c'.registers.get i = some (registers.get i)) ∧
      ∀ i : Fin 2, .variant i ∈ places → c'.variant.get i = v.get i := by
  induction places generalizing c with
  | nil => exact ⟨c, rfl, nofun, nofun⟩
  | cons place places ih =>
    obtain ⟨c₁, hread⟩ := read?_fill c registers v place
    obtain ⟨c', hscan, hregisters, hvariant⟩ := ih c₁
    refine ⟨c', ?_, fun i hi => ?_, fun i hi => ?_⟩
    · rw [List.map_cons, scan, hread]
      exact hscan
    · -- A register that has no later place keeps what is read here.
      by_cases hlater : .register i ∈ places
      · exact hregisters i hlater
      · have hplace : place = .register i := ((List.mem_cons.1 hi).resolve_right hlater).symm
        have hkeep := scan_registers_of_notMem hlater c₁ (places.map (FormatTrit.fill registers v))
        rw [hscan] at hkeep
        rw [hkeep, registers_of_read? hread, if_pos hplace, hplace]
        rfl
    · by_cases hlater : .variant i ∈ places
      · exact hvariant i hlater
      · have hplace : place = .variant i := ((List.mem_cons.1 hi).resolve_right hlater).symm
        have hkeep := scan_variant_of_notMem hlater c₁ (places.map (FormatTrit.fill registers v))
        rw [hscan] at hkeep
        rw [hkeep, variant_of_read? hread, if_pos hplace, hplace]
        rfl

/-- The trits that are accepted are those that `fill` writes. -/
theorem fill_of_scan {registers : Registers} {v : Variant} {ts : List Trit}
    (hlen : ts.length = places.length)
    (hnodup : (places.filter FormatTrit.isCapture).Nodup) (hscan : c.scan places ts = (c', true))
    (hregisters : ∀ (i : Fin 3) (r : Register), c'.registers.get i = some r → registers.get i = r)
    (hvariant : ∀ i : Fin 2, .variant i ∈ places → v.get i = c'.variant.get i) :
    places.map (FormatTrit.fill registers v) = ts := by
  induction places generalizing c ts with
  | nil => exact (List.length_eq_zero_iff.1 hlen).symm
  | cons place places ih =>
    match ts, hlen with
    | t :: ts, hlen =>
      rw [scan] at hscan
      split at hscan
      · rename_i c₁ hread
        have hrest := ih (Nat.succ.inj hlen)
          (hnodup.sublist ((List.sublist_cons_self place places).filter _)) hscan
          (fun i hi => hvariant i (List.mem_cons_of_mem _ hi))
        rw [List.map_cons, hrest]
        congr 1
        -- What is read here is not read again, so the rest of the scan keeps it.
        cases place with
        | fixed want => exact (read?_fixed hread).1.symm
        | register i =>
          have hlater : .register i ∉ places := fun hi =>
            (List.nodup_cons.1 hnodup).1 (List.mem_filter.2 ⟨hi, rfl⟩)
          have hkeep := scan_registers_of_notMem hlater c₁ ts
          rw [hscan, registers_of_read? hread, if_pos rfl] at hkeep
          exact hregisters i t hkeep
        | variant i =>
          have hlater : .variant i ∉ places := fun hi =>
            (List.nodup_cons.1 hnodup).1 (List.mem_filter.2 ⟨hi, rfl⟩)
          have hkeep := scan_variant_of_notMem hlater c₁ ts
          rw [hscan, variant_of_read? hread, if_pos rfl] at hkeep
          exact (hvariant i List.mem_cons_self).trans hkeep
      · exact nomatch hscan

end Capture

namespace Format

/-- The format has three trytes of places, and nothing is read at two of them. -/
structure Readable (format : Format) : Prop where
  length_trits : format.trits.length = 18
  captures_nodup : (format.trits.filter FormatTrit.isCapture).Nodup

/-- What a match holds: the registers and the trits of the variant that have a place, and no others. -/
structure Captures (format : Format) (registers : Registers) (v : Variant) (c : Capture) :
    Prop where
  registers : ∀ i : Fin 3,
    c.registers.get i = if .register i ∈ format.trits then some (registers.get i) else none
  variant : ∀ i : Fin 2, c.variant.get i = if .variant i ∈ format.trits then v.get i else .zero

variable {format : Format} {registers : Registers} {v : Variant} {lead : Word} {c : Capture}

theorem match?_eq_some_iff : format.match? lead = some c ↔ format.scan lead = (c, true) := by
  unfold match?
  split <;> rename_i h <;> rw [h] <;> simp

theorem trits_fill (h : format.Readable) :
    (format.fill registers v).trits = format.trits.map (FormatTrit.fill registers v) :=
  Word.trits_ofTrits (n := 3) (by rw [List.length_map, h.length_trits])

theorem length_fill (h : format.Readable) : (format.fill registers v).length = 3 :=
  Word.length_ofTrits (by rw [List.length_map, h.length_trits])

/-- A format recognises what it writes. -/
theorem match?_fill (h : format.Readable) (registers : Registers) (v : Variant) :
    ∃ c, format.match? (format.fill registers v) = some c ∧ format.Captures registers v c := by
  obtain ⟨c, hscan, hregisters, hvariant⟩ :=
    Capture.scan_fill .empty registers v format.trits
  refine ⟨c, match?_eq_some_iff.2 ?_, fun i => ?_, fun i => ?_⟩
  · unfold scan
    rw [trits_fill h, hscan]
  · split
    · exact hregisters i ‹_›
    · have hkeep := Capture.scan_registers_of_notMem (i := i) ‹_› .empty
        (format.trits.map (FormatTrit.fill registers v))
      rw [hscan] at hkeep
      rw [hkeep, Capture.registers_empty]
  · split
    · exact hvariant i ‹_›
    · have hkeep := Capture.scan_variant_of_notMem (i := i) ‹_› .empty
        (format.trits.map (FormatTrit.fill registers v))
      rw [hscan] at hkeep
      rw [hkeep, Capture.variant_empty]

/-- The three trytes that a format recognises are those that it writes for what it finds in them. -/
theorem fill_of_match? (h : format.Readable) (hlen : lead.length = 3)
    (hc : format.match? lead = some c)
    (hregisters : ∀ (i : Fin 3) (r : Register), c.registers.get i = some r → registers.get i = r) :
    format.fill registers c.variant = lead := by
  apply Word.trits_injective
  rw [trits_fill h]
  apply Capture.fill_of_scan _ h.captures_nodup (match?_eq_some_iff.1 hc) hregisters
  · exact fun _ _ => rfl
  · rw [Word.length_trits, hlen, h.length_trits]

theorem exists_fill_of_match? (h : format.Readable) (hlen : lead.length = 3)
    (hc : format.match? lead = some c) :
    ∃ registers, format.fill registers c.variant = lead ∧
      format.Captures registers c.variant c := by
  -- A register that has no place does not show, so any will do.
  let registers : Registers := c.registers.map (·.getD .zero)
  have hfill : format.fill registers c.variant = lead := by
    apply fill_of_match? h hlen hc
    intro i r hr
    change (c.registers.map (·.getD .zero))[i.val] = r
    rw [Vector.getElem_map, show c.registers[i.val] = some r from hr]
    rfl
  obtain ⟨c', hc', hcaptures⟩ := match?_fill h registers c.variant
  rw [hfill, hc, Option.some.injEq] at hc'
  exact ⟨registers, hfill, hc' ▸ hcaptures⟩

end Format

end BalancedTernary
