import BalancedTernary.Proofs.InstructionSet
import Mathlib.Data.List.Count
import Mathlib.Data.List.Nodup
import Mathlib.Data.Set.List

/-!
# Patterns of formats

In a table a format is written as three texts of six letters. Three letters stand for fixed trits,
the others for a register or for a trit of the variant. Every such pattern in which none of the
others stands twice can be filled and scanned, and the one inverts the other.
-/

namespace BalancedTernary

/-! ## Letters -/

namespace FormatTrit

/-- What can stand at a place, in the order of `letters`. -/
def all : List FormatTrit := [n, o, p, x, y, z, v, w]

/-- The letters of a pattern. -/
def letters : Text := "λ01xyzvw".toList

/-- The letters at which something is read. -/
def captureLetters : Text := "xyzvw".toList

theorem mem_all (place : FormatTrit) : place ∈ all := by
  cases place with
  | fixed t => cases t <;> decide
  | register i =>
    revert i
    decide
  | variant i =>
    revert i
    decide

theorem map_glyph_all : all.map glyph = letters := by decide

theorem glyph_injective : Function.Injective glyph := by
  have hnodup : (all.map glyph).Nodup := by
    rw [map_glyph_all]
    decide
  intro a b h
  exact List.inj_on_of_nodup_map hnodup a.mem_all b.mem_all h

theorem glyph_mem_letters (place : FormatTrit) : place.glyph ∈ letters := by
  rw [← map_glyph_all]
  exact List.mem_map_of_mem place.mem_all

theorem exists_glyph {c : Char} (h : c ∈ letters) : ∃ place : FormatTrit, place.glyph = c := by
  rw [← map_glyph_all] at h
  obtain ⟨place, -, hplace⟩ := List.mem_map.1 h
  exact ⟨place, hplace⟩

/-- The letters at which something is read are those of the places of which that is said. -/
theorem mem_captureLetters_iff {c : Char} :
    c ∈ captureLetters ↔ ∃ place : FormatTrit, place.isCapture = true ∧ place.glyph = c := by
  have hcaptures : (all.filter isCapture).map glyph = captureLetters := by decide
  rw [← hcaptures, List.mem_map]
  simp only [List.mem_filter, mem_all, true_and]

end FormatTrit

namespace Format

/-- Three texts of six letters. A letter at which something is read stands at one place or none. -/
structure IsPattern (pattern : List Text) : Prop where
  length_pattern : pattern.length = 3
  length_text : ∀ text ∈ pattern, text.length = 6
  mem_letters : ∀ text ∈ pattern, ∀ c ∈ text, c ∈ FormatTrit.letters
  count_le_one : ∀ c ∈ FormatTrit.captureLetters, pattern.flatten.count c ≤ 1

variable {format : Format}

/-! ## Patterns and places -/

theorem flatten_pattern (format : Format) :
    format.pattern.flatten = format.trits.map FormatTrit.glyph := by
  show _ ++ (_ ++ (List.drop (6 + 6) _ ++ [])) = _
  rw [List.append_nil, ← List.drop_drop, List.take_append_drop, List.take_append_drop]

/-- A letter of the pattern is a place of the format. -/
theorem glyph_mem_flatten_pattern {place : FormatTrit} :
    place.glyph ∈ format.pattern.flatten ↔ place ∈ format.trits := by
  rw [flatten_pattern, List.mem_map_of_injective FormatTrit.glyph_injective]

theorem count_flatten_pattern (place : FormatTrit) :
    format.pattern.flatten.count place.glyph = format.trits.count place := by
  rw [flatten_pattern, List.count_map_of_injective _ _ FormatTrit.glyph_injective]

theorem length_text_pattern :
    (∀ text ∈ format.pattern, text.length = 6) ↔ format.trits.length = 18 := by
  simp [pattern]
  omega

/-- Nothing is read twice exactly when each of the letters stands once at most. -/
theorem nodup_captures_iff :
    (format.trits.filter FormatTrit.isCapture).Nodup ↔
      ∀ c ∈ FormatTrit.captureLetters, format.pattern.flatten.count c ≤ 1 := by
  rw [List.nodup_iff_count_le_one]
  constructor
  · intro h c hc
    obtain ⟨place, hplace, rfl⟩ := FormatTrit.mem_captureLetters_iff.1 hc
    rw [count_flatten_pattern, ← List.count_filter hplace]
    exact h place
  · intro h place
    by_cases hplace : place.isCapture = true
    · rw [List.count_filter hplace, ← count_flatten_pattern]
      exact h _ (FormatTrit.mem_captureLetters_iff.2 ⟨place, hplace, rfl⟩)
    · have hnone : place ∉ format.trits.filter FormatTrit.isCapture := fun hmem =>
        hplace (List.mem_filter.1 hmem).2
      rw [List.count_eq_zero_of_not_mem hnone]
      exact Nat.zero_le 1

theorem isPattern_pattern_iff : IsPattern format.pattern ↔ format.Readable := by
  constructor
  · intro h
    exact ⟨length_text_pattern.1 h.length_text, nodup_captures_iff.2 h.count_le_one⟩
  · intro h
    refine ⟨rfl, length_text_pattern.2 h.length_trits, fun text htext c hc => ?_,
      nodup_captures_iff.1 h.captures_nodup⟩
    have hmem : c ∈ format.pattern.flatten := List.mem_flatten.2 ⟨text, htext, hc⟩
    rw [flatten_pattern] at hmem
    obtain ⟨place, -, rfl⟩ := List.mem_map.1 hmem
    exact place.glyph_mem_letters

/-- Every pattern is that of a format. -/
theorem exists_format_of_isPattern {pattern : List Text} (h : IsPattern pattern) :
    ∃ format : Format, format.pattern = pattern := by
  match pattern, h.length_pattern with
  | [a, b, c], _ =>
    obtain ⟨ha, hb, hc⟩ : a.length = 6 ∧ b.length = 6 ∧ c.length = 6 := by
      simpa using h.length_text
    have hletters : a ++ b ++ c ∈ Set.range (List.map FormatTrit.glyph) := by
      rw [Set.range_list_map]
      intro d hd
      rw [List.append_assoc] at hd
      have hmem : d ∈ [a, b, c].flatten := by simpa using hd
      obtain ⟨text, htext, hd⟩ := List.mem_flatten.1 hmem
      exact FormatTrit.exists_glyph (h.mem_letters text htext d hd)
    obtain ⟨trits, htrits⟩ := hletters
    have hfirst : (a ++ (b ++ c)).drop 6 = b ++ c := List.drop_left' ha
    have hlast : (a ++ (b ++ c)).drop (6 + 6) = c := by
      rw [← List.drop_drop, hfirst, List.drop_left' hb]
    refine ⟨⟨[], trits, []⟩, ?_⟩
    show [_, ((trits.map FormatTrit.glyph).drop 6).take 6,
      (trits.map FormatTrit.glyph).drop (6 + 6)] = _
    rw [htrits, List.append_assoc, hfirst, hlast, List.take_left' ha, List.take_left' hb]

end Format

/-! ## Filling and scanning -/

namespace Capture

/-- Whether a register was read. -/
def seen (c : Capture) (i : Fin 3) : Bool := (c.registers.get i).isSome

/-- The registers that were read, with zero for the others. -/
def found (c : Capture) : Registers := c.registers.map (·.getD .zero)

theorem get_found (c : Capture) (i : Fin 3) : c.found.get i = (c.registers.get i).getD .zero := by
  show (c.registers.map (·.getD .zero))[i.val] = _
  rw [Vector.getElem_map]
  rfl

end Capture

namespace Format

variable {format : Format} {registers : Registers} {v : Variant} {lead : Word} {c : Capture}

theorem Captures.seen_iff (h : format.Captures registers v c) (i : Fin 3) :
    c.seen i = true ↔ .register i ∈ format.trits := by
  unfold Capture.seen
  rw [h.registers i]
  split <;> simp [*]

theorem Captures.get_found (h : format.Captures registers v c) (i : Fin 3) :
    c.found.get i = if .register i ∈ format.trits then registers.get i else .zero := by
  rw [Capture.get_found, h.registers i]
  split <;> rfl

/-- The trytes that a format accepts are those that it writes for what it found in them. -/
theorem fill_found_of_scan (h : format.Readable) (hlen : lead.length = 3)
    (hscan : format.scan lead = (c, true)) : format.fill c.found c.variant = lead := by
  apply fill_of_match? h hlen (match?_eq_some_iff.2 hscan)
  intro i r hr
  rw [Capture.get_found, hr]
  rfl

/-- The formats of the table are written as patterns, and every pattern is that of a format. What a
format with a pattern writes, it accepts, and finds the registers and the trits of the variant whose
letters the pattern has, and no others. What it accepts is what it writes for what it finds. -/
theorem fill_scan_inverse :
    (∀ family : Family, ∀ format ∈ family.formats, IsPattern format.pattern) ∧
    ∀ pattern : List Text, IsPattern pattern → (∃ format : Format, format.pattern = pattern) ∧
      ∀ format : Format, format.pattern = pattern →
        (∀ (registers : Registers) (v : Variant), (format.fill registers v).length = 3 ∧
          ∃ c, format.scan (format.fill registers v) = (c, true) ∧
            (∀ i, c.seen i = true ↔ (FormatTrit.register i).glyph ∈ pattern.flatten) ∧
            (∀ i, c.found.get i =
              if (FormatTrit.register i).glyph ∈ pattern.flatten then registers.get i
              else .zero) ∧
            ∀ i, c.variant.get i =
              if (FormatTrit.variant i).glyph ∈ pattern.flatten then v.get i else .zero) ∧
        ∀ (lead : Word) (c : Capture), lead.length = 3 → format.scan lead = (c, true) →
          format.fill c.found c.variant = lead := by
  constructor
  · intro family format hformat
    exact isPattern_pattern_iff.2 (Family.fits_of_mem hformat).toReadable
  intro pattern hpattern
  refine ⟨exists_format_of_isPattern hpattern, ?_⟩
  rintro format rfl
  have hreadable := isPattern_pattern_iff.1 hpattern
  refine ⟨fun registers v => ⟨length_fill hreadable, ?_⟩, fun lead c hlen hscan => ?_⟩
  · obtain ⟨c, hc, hcaptures⟩ := match?_fill hreadable registers v
    simp only [glyph_mem_flatten_pattern]
    exact ⟨c, match?_eq_some_iff.1 hc, hcaptures.seen_iff, hcaptures.get_found, hcaptures.variant⟩
  · exact fill_found_of_scan hreadable hlen hscan

/-- All letters, in an order that no format of the table has. -/
def scattered : List Text := ["wλ0v1x".toList, "z0000y".toList, "111λλλ".toList]

/-- With all letters in the pattern, the scan finds everything that was written. -/
theorem scattered_inverse :
    IsPattern scattered ∧ ∃ format : Format, format.pattern = scattered ∧
      ∀ (registers : Registers) (v : Variant), ∃ c,
        format.scan (format.fill registers v) = (c, true) ∧ c.found = registers ∧
          c.variant = v ∧ format.fill c.found c.variant = format.fill registers v := by
  have hlengths : scattered.all (fun text => text.length == 6) = true := by decide
  have hletters : scattered.all (fun text => text.all FormatTrit.letters.contains) = true := by
    decide
  have hcounts : FormatTrit.captureLetters.all (fun c => scattered.flatten.count c ≤ 1) = true := by
    decide
  have hpattern : IsPattern scattered := by
    simp only [List.all_eq_true, List.contains_iff_mem, beq_iff_eq, decide_eq_true_eq]
      at hlengths hletters hcounts
    exact ⟨rfl, hlengths, hletters, hcounts⟩
  obtain ⟨⟨format, hformat⟩, hall⟩ := fill_scan_inverse.2 scattered hpattern
  obtain ⟨hfill, hscan⟩ := hall format hformat
  refine ⟨hpattern, format, hformat, fun registers v => ?_⟩
  obtain ⟨hlen, c, hc, -, hfound, hvariant⟩ := hfill registers v
  have hregister (i : Fin 3) : (FormatTrit.register i).glyph ∈ scattered.flatten := by
    revert i
    decide +kernel
  have hplace (i : Fin 2) : (FormatTrit.variant i).glyph ∈ scattered.flatten := by
    revert i
    decide +kernel
  refine ⟨c, hc, Vector.ext fun i hi => ?_, Vector.ext fun i hi => ?_, hscan _ c hlen hc⟩
  · exact (hfound ⟨i, hi⟩).trans (if_pos (hregister ⟨i, hi⟩))
  · exact (hvariant ⟨i, hi⟩).trans (if_pos (hplace ⟨i, hi⟩))

end Format

end BalancedTernary
