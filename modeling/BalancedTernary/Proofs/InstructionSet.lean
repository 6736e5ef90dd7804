import BalancedTernary.Machine.Family
import BalancedTernary.Proofs.Format
import Mathlib.Data.List.Pairwise

/-!
# The instruction set

What the table of families and formats guarantees: every format can be read back, has a place for the
operands of its modes, and is told apart from every other format by the first three trytes.
-/

namespace BalancedTernary

/-- The one row of addressing modes whose format has no place for the register of its first
operand. -/
def Family.omitsFirst (family : Family) (modes : List Mode) : Prop :=
  (family = .add ∨ family = .bitwise) ∧ modes = [.register, .immediate, .indirect]

instance (family : Family) (modes : List Mode) : Decidable (family.omitsFirst modes) :=
  inferInstanceAs (Decidable (_ ∧ _))

/-- The one row of addressing modes whose format has a tryte that stands for nothing. -/
def Family.pads (family : Family) (modes : List Mode) : Prop :=
  family = .move ∧ modes = [.immediate, .indirect]

instance (family : Family) (modes : List Mode) : Decidable (family.pads modes) :=
  inferInstanceAs (Decidable (_ ∧ _))

/-- Whether an extension holds the value of the operand `index`. -/
def Extension.carries (index : Nat) : Extension → Bool
  | operand k => k.val = index
  | padding => false

/-- What holds of every format in the table of a family. -/
structure Format.Fits (family : Family) (format : Format) : Prop extends format.Readable where
  selected : family.format? format.modes = some format
  count : family.minOperands ≤ format.modes.length ∧ format.modes.length ≤ family.maxOperands
  few : format.modes.length ≤ 3
  memory : ∀ rule ∈ family.memoryRule?, format.modes.countP Mode.isMemory ≤ rule.limit
  registers : ∀ k : Fin 3, .register k ∈ format.trits ↔
    format.modes[k.val]?.any Mode.isRegister ∧ ¬(k = 0 ∧ family.omitsFirst format.modes)
  variants : ∀ p ∈ family.variants, ∀ i : Fin 2, .variant i ∉ format.trits → p.2.get i = .zero
  carried : ∀ k : Fin 3, .operand k ∈ format.extensions ↔
    format.modes[k.val]?.any (fun mode => !mode.isRegister)
  located : ∀ k : Fin 3, ∀ position < format.extensions.length,
    format.extensions[position]? = some (.operand k) →
      format.extensions.findIdx? (Extension.carries k) = some position
  padded : if family.pads format.modes then format.extensions = [.padding, .operand 0]
    else .padding ∉ format.extensions

namespace Family

theorem mem_all (family : Family) : family ∈ all := by
  cases family <;> decide

theorem isRelative_iff {family : Family} : family.isRelative = true ↔ family = .jump := by
  cases family <;> decide

theorem forall_formats (family : Family) (format : Format) {P : Family → Format → Prop}
    (hf : format ∈ family.formats)
    (h : ∀ family ∈ all, ∀ format ∈ family.formats, P family format) : P family format :=
  h family family.mem_all format hf

theorem fits_of_mem {family : Family} {format : Format} (h : format ∈ family.formats) :
    format.Fits family := by
  constructor
  · constructor <;> apply forall_formats family format h <;> decide +kernel
  all_goals
    apply forall_formats family format h
    decide +kernel

/-- A variant that has a mnemonic is captured whole, with the trits that have no place. -/
theorem variant_of_captures {family : Family} {format : Format} (hfits : format.Fits family)
    {registers : Registers} {p : String × Variant} (hp : p ∈ family.variants) {c : Capture}
    (hc : format.Captures registers p.2 c) : c.variant = p.2 := by
  apply Vector.ext
  intro i hi
  have hvariant := hc.variant ⟨i, hi⟩
  split at hvariant
  · exact hvariant
  · rename_i hplace
    exact hvariant.trans (hfits.variants p hp ⟨i, hi⟩ hplace).symm

/-! ## Mnemonics -/

theorem mem_of_format? {family : Family} {modes : List Mode} {format : Format}
    (h : family.format? modes = some format) : format ∈ family.formats ∧ format.modes = modes :=
  ⟨List.mem_of_find?_eq_some h, by simpa using List.find?_some h⟩

theorem mem_variants_of_variant? {family : Family} {name : Text} {v : Variant}
    (h : family.variant? name = some v) :
    ∃ p ∈ family.variants, p.1.toList = name ∧ p.2 = v := by
  obtain ⟨p, hp, rfl⟩ := Option.map_eq_some_iff.1 h
  exact ⟨p, List.mem_of_find?_eq_some hp, by simpa using List.find?_some hp, rfl⟩

theorem mem_variants_of_mnemonic? {family : Family} {v : Variant} {mnemonic : String}
    (h : family.mnemonic? v = some mnemonic) : (mnemonic, v) ∈ family.variants := by
  obtain ⟨p, hp, rfl⟩ := Option.map_eq_some_iff.1 h
  have hv : p.2 = v := by simpa using List.find?_some hp
  rw [← hv]
  exact List.mem_of_find?_eq_some hp

/-- The mnemonic that stands for a variant selects it again. -/
theorem lookup?_mnemonic {family : Family} {p : String × Variant} (hp : p ∈ family.variants) :
    ∃ mnemonic, family.mnemonic? p.2 = some mnemonic ∧
      lookup? mnemonic.toList = some (family, some p.2) := by
  have htable : ∀ family ∈ all, ∀ p ∈ family.variants, ∃ mnemonic,
      family.mnemonic? p.2 = some mnemonic ∧
        lookup? mnemonic.toList = some (family, some p.2) := by
    decide +kernel
  exact htable family family.mem_all p hp

theorem mem_variants_of_lookup? {name : Text} {family : Family} {v : Variant}
    (h : lookup? name = some (family, some v)) : ∃ p ∈ family.variants, p.2 = v := by
  obtain ⟨f, _, hf⟩ := Option.map_eq_some_iff.1 h
  obtain ⟨rfl, hv⟩ := Prod.mk.inj hf
  obtain ⟨p, hp, -, hv⟩ := mem_variants_of_variant? hv
  exact ⟨p, hp, hv⟩

/-! ## Telling formats apart -/

/-- The formats in the order in which trytes are tried against them. -/
def table : List (Family × Format) :=
  all.flatMap fun family => family.formats.map fun format => (family, format)

/-- No three trytes agree with both formats: the fixed trits differ somewhere, or they do so for
every choice of variants that have a mnemonic. -/
def Apart (a b : Family × Format) : Prop :=
  FormatTrit.clash none none a.2.trits b.2.trits = true ∨
    ∀ p ∈ a.1.variants, ∀ q ∈ b.1.variants,
      FormatTrit.clash (some p.2) (some q.2) a.2.trits b.2.trits = true

instance : DecidableRel Apart := fun _ _ => inferInstanceAs (Decidable (_ ∨ _))

theorem table_pairwise_apart : table.Pairwise Apart := by
  decide +kernel

theorem mem_table {family : Family} {format : Format} (h : format ∈ family.formats) :
    (family, format) ∈ table := by
  unfold table
  rw [List.mem_flatMap]
  exact ⟨family, family.mem_all, List.mem_map.2 ⟨format, h, rfl⟩⟩

/-- The two formats never write the same trits. -/
def Differ (a b : Family × Format) : Prop :=
  ∀ p ∈ a.1.variants, ∀ q ∈ b.1.variants, ∀ r s : Registers,
    a.2.trits.map (FormatTrit.fill r p.2) ≠ b.2.trits.map (FormatTrit.fill s q.2)

instance : Std.Symm Differ := ⟨fun _ _ h p hp q hq r s he => h q hq p hp s r he.symm⟩

theorem differ_of_apart {a b : Family × Format} (h : Apart a b) : Differ a b := by
  intro p hp q hq r s
  obtain h | h := h
  · exact FormatTrit.fill_ne_of_clash (fun _ hx => absurd hx (Option.not_mem_none _))
      (fun _ hx => absurd hx (Option.not_mem_none _)) h
  · exact FormatTrit.fill_ne_of_clash (fun _ hx => (Option.some.inj hx).symm)
      (fun _ hx => (Option.some.inj hx).symm) (h p hp q hq)

/-- At most one format recognises three given trytes with a variant that has a mnemonic. -/
theorem format_unique {lead : Word} (hlen : lead.length = 3) {f g : Family} {F G : Format}
    (hF : F ∈ f.formats) (hG : G ∈ g.formats) {c d : Capture} (hc : F.match? lead = some c)
    (hd : G.match? lead = some d) (hf : (f.mnemonic? c.variant).isSome)
    (hg : (g.mnemonic? d.variant).isSome) : f = g ∧ F = G := by
  obtain ⟨r, hr, -⟩ := Format.exists_fill_of_match? (fits_of_mem hF).toReadable hlen hc
  obtain ⟨s, hs, -⟩ := Format.exists_fill_of_match? (fits_of_mem hG).toReadable hlen hd
  have htrits : F.trits.map (FormatTrit.fill r c.variant) =
      G.trits.map (FormatTrit.fill s d.variant) := by
    rw [← Format.trits_fill (fits_of_mem hF).toReadable, hr,
      ← Format.trits_fill (fits_of_mem hG).toReadable, hs]
  obtain ⟨m, hm⟩ := Option.isSome_iff_exists.1 hf
  obtain ⟨m', hm'⟩ := Option.isSome_iff_exists.1 hg
  -- Each format writes what it recognises, so two of them would write the same trits.
  by_contra hne
  have hdiffer : Differ (f, F) (g, G) :=
    (table_pairwise_apart.imp differ_of_apart).forall (mem_table hF) (mem_table hG)
      (fun he => hne (Prod.mk.inj he))
  exact hdiffer _ (mem_variants_of_mnemonic? hm) _ (mem_variants_of_mnemonic? hm') r s htrits

end Family

end BalancedTernary
