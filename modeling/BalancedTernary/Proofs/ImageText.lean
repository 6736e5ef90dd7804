import BalancedTernary.Assembly.Program
import BalancedTernary.Image
import BalancedTernary.Proofs.Numeral
import BalancedTernary.Proofs.Outcome
import BalancedTernary.Proofs.Symbols
import BalancedTernary.Proofs.Text

/-!
# Images as text

A reader of images takes the texts whose items are all trytes, and no others, and gives back their
trytes. White space between the items does not matter, so what it reads from the output of a program
is the image, although the output has lines.
-/

namespace BalancedTernary

/-! ## One tryte -/

namespace Trit

theorem isBlank_glyph (t : Trit) : Text.isBlank t.glyph = false := by
  cases t <;> decide

theorem utf8Size_glyph_le (t : Trit) : t.glyph.utf8Size ≤ 2 := by
  cases t <;> decide

end Trit

/-- Six glyphs of trits. -/
def Text.IsTryte (s : Text) : Prop := s.length = 6 ∧ ∀ c ∈ s, c = 'λ' ∨ c = '0' ∨ c = '1'

instance (s : Text) : Decidable s.IsTryte :=
  @instDecidableAnd _ _ (Nat.decEq s.length 6) (List.decidableBAll _ s)

namespace Tryte

theorem parse_trit_eq_ok_iff {s : Text} {c : Char} {t : Trit} :
    parse.trit s c = .ok t ↔ c = t.glyph := by
  unfold parse.trit
  rw [← Trit.ofGlyph?_eq_some_iff]
  cases Trit.ofGlyph? c <;> simp

/-- Reading a tryte inverts writing it. -/
theorem parse_eq_ok_iff {s : Text} {t : Tryte} : parse s = .ok t ↔ s = t.text := by
  constructor
  · intro h
    unfold parse at h
    split at h
    · simp only [Outcome.bind_eq_ok, parse_trit_eq_ok_iff] at h
      obtain ⟨a, rfl, b, rfl, c, rfl, d, rfl, e, rfl, f, rfl, h⟩ := h
      rw [← Except.ok.inj h]
      rfl
    · exact nomatch h
  · rintro rfl
    obtain ⟨⟨a, b, c⟩, ⟨d, e, f⟩⟩ := t
    show parse [a.glyph, b.glyph, c.glyph, d.glyph, e.glyph, f.glyph] = _
    simp only [parse, parse_trit_eq_ok_iff.2 rfl]
    rfl

theorem isTryte_text (t : Tryte) : t.text.IsTryte := by
  refine ⟨rfl, fun c hc => ?_⟩
  obtain ⟨u, -, rfl⟩ := List.mem_map.1 hc
  exact u.glyph_cases

theorem exists_text_of_isTryte {s : Text} (h : s.IsTryte) : ∃ t : Tryte, s = t.text := by
  obtain ⟨hlength, hglyphs⟩ := h
  match s, hlength with
  | [a, b, c, d, e, f], _ =>
    simp only [List.forall_mem_cons] at hglyphs
    obtain ⟨ha, hb, hc, hd, he, hf, -⟩ := hglyphs
    obtain ⟨a, rfl⟩ := Trit.exists_glyph ha
    obtain ⟨b, rfl⟩ := Trit.exists_glyph hb
    obtain ⟨c, rfl⟩ := Trit.exists_glyph hc
    obtain ⟨d, rfl⟩ := Trit.exists_glyph hd
    obtain ⟨e, rfl⟩ := Trit.exists_glyph he
    obtain ⟨f, rfl⟩ := Trit.exists_glyph hf
    exact ⟨⟨⟨a, b, c⟩, ⟨d, e, f⟩⟩, rfl⟩

theorem parse_trit_eq_error {s : Text} {c : Char} {fault : Numeral.Fault}
    (h : parse.trit s c = .error fault) : fault = .tryteGlyph s c := by
  unfold parse.trit at h
  split at h
  · exact nomatch h
  · exact (Except.error.inj h).symm

theorem kind_of_parse_eq_error {s : Text} {fault : Numeral.Fault} (h : parse s = .error fault) :
    fault.kind = .invalidNumeral := by
  unfold parse at h
  split at h
  · rename_i a b c d e f
    -- Whichever of the six characters it is, the fault is that of a glyph.
    have hglyph (g : Char) (hg : parse.trit [a, b, c, d, e, f] g = .error fault) :
        fault.kind = .invalidNumeral := by
      rw [parse_trit_eq_error hg]
      rfl
    simp only [Outcome.bind_eq_error] at h
    obtain h | ⟨_, _, h | ⟨_, _, h | ⟨_, _, h | ⟨_, _, h | ⟨_, _, h | ⟨_, _, h⟩⟩⟩⟩⟩⟩ := h
    · exact hglyph a h
    · exact hglyph b h
    · exact hglyph c h
    · exact hglyph d h
    · exact hglyph e h
    · exact hglyph f h
    · exact nomatch h
  · rw [← Except.error.inj h]
    rfl

/-- What is no tryte is refused as a numeral. -/
theorem exists_parse_eq_error {s : Text} (h : ¬ s.IsTryte) :
    ∃ fault, parse s = .error fault ∧ fault.kind = .invalidNumeral := by
  cases hparse : parse s with
  | error fault => exact ⟨fault, rfl, kind_of_parse_eq_error hparse⟩
  | ok t =>
    rw [parse_eq_ok_iff.1 hparse] at h
    exact absurd t.isTryte_text h

theorem byteSize_text_lt (t : Tryte) : Text.byteSize t.text < Image.itemLimit := by
  obtain ⟨⟨a, b, c⟩, ⟨d, e, f⟩⟩ := t
  have ha := a.utf8Size_glyph_le
  have hb := b.utf8Size_glyph_le
  have hc := c.utf8Size_glyph_le
  have hd := d.utf8Size_glyph_le
  have he := e.utf8Size_glyph_le
  have hf := f.utf8Size_glyph_le
  show 0 + a.glyph.utf8Size + b.glyph.utf8Size + c.glyph.utf8Size + d.glyph.utf8Size +
    e.glyph.utf8Size + f.glyph.utf8Size < 65536
  omega

end Tryte

/-! ## Items -/

namespace Text

/-- `s` is the items in order, with white space around them: each stands until the next white space
or the end. -/
inductive HasItems : Text → List Text → Prop
  | nil : HasItems [] []
  | blank {c : Char} {s : Text} {items : List Text} (hc : isBlank c = true)
      (hs : HasItems s items) : HasItems (c :: s) items
  | item {item s : Text} {items : List Text} (hne : item ≠ [])
      (hitem : ∀ c ∈ item, isBlank c = false) (hstop : ∀ c ∈ s.head?, isBlank c = true)
      (hs : HasItems s items) : HasItems (item ++ s) (item :: items)

theorem HasItems.eq_words {s : Text} {items : List Text} (h : HasItems s items) :
    items = words s := by
  induction h with
  | nil => rfl
  | blank hc _ ih => exact ih.trans (fields_cons _ hc).symm
  | @item item s items hne hitem hstop _ ih =>
    rw [ih]
    unfold words
    cases s with
    | nil => rw [List.append_nil, fields_token hne hitem, fields_nil]
    | cons c s =>
      have hc : isBlank c = true := hstop c rfl
      rw [fields_append_cons _ _ hc, fields_token hne hitem, fields_cons _ hc,
        List.singleton_append]

theorem exists_hasItems (s : Text) : ∃ items, HasItems s items := by
  induction s with
  | nil => exact ⟨[], .nil⟩
  | cons c s ih =>
    obtain ⟨items, hs⟩ := ih
    cases hc : isBlank c with
    | true => exact ⟨items, .blank hc hs⟩
    | false =>
      have hsingle : ∀ d ∈ [c], isBlank d = false := by simpa using hc
      -- The character starts a new item, unless one starts right after it.
      cases hs with
      | nil => exact ⟨[[c]], .item (List.cons_ne_nil c []) hsingle nofun .nil⟩
      | @blank b s _ hb hs =>
        have hstop : ∀ d ∈ (b :: s).head?, isBlank d = true := by simpa using hb
        exact ⟨[c] :: items, .item (List.cons_ne_nil c []) hsingle hstop (.blank hb hs)⟩
      | item hne hitem hstop hs =>
        exact ⟨_, .item (List.cons_ne_nil c _) (List.forall_mem_cons.2 ⟨hc, hitem⟩) hstop hs⟩

theorem hasItems_iff {s : Text} {items : List Text} : HasItems s items ↔ items = words s := by
  constructor
  · exact HasItems.eq_words
  · rintro rfl
    obtain ⟨items, h⟩ := exists_hasItems s
    exact h.eq_words ▸ h

end Text

namespace Image

/-- Reading inverts writing, item by item. -/
theorem readFrom_eq_ok_iff {index : Nat} {items : List Text} {w : Word} :
    readFrom index items = .ok w ↔ items = w.map Tryte.text := by
  induction items generalizing index w with
  | nil =>
    show Except.ok [] = Except.ok w ↔ _
    cases w <;> simp
  | cons item items ih =>
    unfold readFrom
    constructor
    · intro h
      split at h
      · exact nomatch h
      · split at h
        · exact nomatch h
        · rename_i t ht
          obtain ⟨rest, hrest, rfl⟩ := Outcome.map_eq_ok.1 h
          rw [List.map_cons, ← ih.1 hrest, ← Tryte.parse_eq_ok_iff.1 ht]
    · intro h
      cases w with
      | nil => exact nomatch h
      | cons t w =>
        obtain ⟨rfl, rfl⟩ := List.cons.inj h
        have hsize := t.byteSize_text_lt
        rw [if_neg (by omega), Tryte.parse_eq_ok_iff.2 rfl]
        exact Outcome.map_eq_ok.2 ⟨w, ih.2 rfl, rfl⟩

/-- Items that are too long apart, the first item that is no tryte is reported with its index. -/
theorem exists_readFrom_eq_error {items : List Text} (index : Nat)
    (hshort : ∀ item ∈ items, Text.byteSize item < itemLimit)
    (h : ¬ ∀ item ∈ items, Text.IsTryte item) :
    ∃ earlier item later fault, items = earlier ++ item :: later ∧
      (∀ i ∈ earlier, Text.IsTryte i) ∧ ¬ Text.IsTryte item ∧ fault.kind = .invalidNumeral ∧
        readFrom index items = .error (.tryte (index + earlier.length) fault) := by
  induction items generalizing index with
  | nil => exact absurd nofun h
  | cons item items ih =>
    rw [List.forall_mem_cons] at hshort h
    unfold readFrom
    rw [if_neg (Nat.not_le.2 hshort.1)]
    by_cases hitem : Text.IsTryte item
    · obtain ⟨t, rfl⟩ := Tryte.exists_text_of_isTryte hitem
      obtain ⟨earlier, bad, later, fault, rfl, hearlier, hbad, hkind, hread⟩ :=
        ih (index + 1) hshort.2 fun hall => h ⟨hitem, hall⟩
      refine ⟨t.text :: earlier, bad, later, fault, rfl,
        List.forall_mem_cons.2 ⟨hitem, hearlier⟩, hbad, hkind, ?_⟩
      rw [Tryte.parse_eq_ok_iff.2 rfl]
      dsimp only
      rw [hread, List.length_cons, Nat.add_comm earlier.length, ← Nat.add_assoc]
      rfl
    · obtain ⟨fault, hparse, hkind⟩ := Tryte.exists_parse_eq_error hitem
      refine ⟨[], item, items, fault, rfl, nofun, hitem, hkind, ?_⟩
      rw [hparse]
      rfl

theorem read_eq_ok_iff {s : Text} {w : Word} : read s = .ok w ↔ Text.words s = w.map Tryte.text :=
  readFrom_eq_ok_iff

theorem forall_isTryte_of_read {s : Text} {w : Word} (h : read s = .ok w) :
    ∀ item ∈ Text.words s, item.IsTryte := by
  intro item hitem
  rw [read_eq_ok_iff.1 h] at hitem
  obtain ⟨t, -, rfl⟩ := List.mem_map.1 hitem
  exact t.isTryte_text

theorem exists_map_text {items : List Text} (h : ∀ item ∈ items, Text.IsTryte item) :
    ∃ w : Word, items = w.map Tryte.text := by
  induction items with
  | nil => exact ⟨[], rfl⟩
  | cons item items ih =>
    rw [List.forall_mem_cons] at h
    obtain ⟨t, rfl⟩ := Tryte.exists_text_of_isTryte h.1
    obtain ⟨w, rfl⟩ := ih h.2
    exact ⟨t :: w, rfl⟩

theorem exists_read_of_forall_isTryte {s : Text} (h : ∀ item ∈ Text.words s, item.IsTryte) :
    ∃ w, read s = .ok w := by
  obtain ⟨w, hw⟩ := exists_map_text h
  exact ⟨w, read_eq_ok_iff.2 hw⟩

/-! ## Words and programs -/

theorem tryte_ne_nil_and_not_blank (t : Tryte) :
    t.text ≠ [] ∧ ∀ c ∈ t.text, Text.isBlank c = false := by
  refine ⟨nofun, fun c hc => ?_⟩
  obtain ⟨u, -, rfl⟩ := List.mem_map.1 hc
  exact u.isBlank_glyph

theorem words_text (w : Word) : Text.words w.text = w.map Tryte.text := by
  have hspace : ∀ c ∈ [' '], Text.isBlank c = true := List.forall_mem_singleton.2 rfl
  unfold Text.words Word.text
  apply Text.fields_join (List.cons_ne_nil ' ' []) hspace
  intro s hs
  obtain ⟨t, -, rfl⟩ := List.mem_map.1 hs
  exact tryte_ne_nil_and_not_blank t

/-- The items of words on lines of their own are the items of the words. -/
theorem words_flatMap (ws : List Word) :
    Text.words (ws.flatMap fun w => w.text ++ ['\n']) = ws.flatten.map Tryte.text := by
  induction ws with
  | nil => rfl
  | cons w ws ih =>
    have hnewline : Text.isBlank '\n' = true := by decide
    rw [List.flatMap_cons, List.append_assoc, List.singleton_append, List.flatten_cons,
      List.map_append, ← ih, ← words_text]
    exact Text.fields_append_cons _ _ hnewline

theorem not_mem_text {c : Char} (hblank : c ≠ ' ') (hglyph : ∀ t : Trit, c ≠ t.glyph) (w : Word) :
    c ∉ w.text := by
  intro hc
  obtain hc | ⟨s, hs, hc⟩ := Text.mem_join hc
  · exact hblank (List.mem_singleton.1 hc)
  · obtain ⟨t, -, rfl⟩ := List.mem_map.1 hs
    obtain ⟨u, -, rfl⟩ := List.mem_map.1 hc
    exact hglyph u rfl

theorem lines_flatMap_text (ws : List Word) :
    Text.lines (ws.flatMap fun w => w.text ++ ['\n']) = ws.map Word.text ++ [[]] := by
  have hflat : (ws.flatMap fun w => w.text ++ ['\n']) =
      (ws.map Word.text).flatMap fun line => line ++ ['\n'] := by
    rw [List.flatMap_map]
  rw [hflat, Text.lines_flatMap]
  intro line hline
  obtain ⟨w, -, rfl⟩ := List.mem_map.1 hline
  constructor
  · exact not_mem_text (by decide) (fun t => by cases t <;> decide) w
  · exact not_mem_text (by decide) (fun t => by cases t <;> decide) w

theorem output_eq (p : Assembly.Program) :
    p.output = (p.inOrder.map (·.code)).flatMap fun w => w.text ++ ['\n'] := by
  rw [List.flatMap_map]
  rfl

/-- The image of a program is read back from its output, which has one line for each fragment, and a
word is read back from its text. A text without long items is read exactly if each of its items is a
tryte, and in any other the first item that is none is reported. -/
theorem read_inverts_text :
    (∀ p : Assembly.Program, read p.output = .ok p.image ∧
      Text.lines p.output = p.inOrder.map (fun u => u.code.text) ++ [[]] ∧
      p.inOrder.Perm p.fragments) ∧
    (∀ w : Word, read w.text = .ok w) ∧
    ∀ s items, Text.HasItems s items → (∀ item ∈ items, Text.byteSize item < 65536) →
      ((∃ w, read s = .ok w) ↔ ∀ item ∈ items, Text.IsTryte item) ∧
      (∀ w, read s = .ok w → w.map Tryte.text = items) ∧
      ((¬ ∀ item ∈ items, Text.IsTryte item) →
        ∃ earlier item later fault, items = earlier ++ item :: later ∧
          (∀ i ∈ earlier, Text.IsTryte i) ∧ ¬ Text.IsTryte item ∧
          fault.kind = .invalidNumeral ∧ read s = .error (.tryte earlier.length fault)) := by
  refine ⟨fun p => ⟨?_, ?_, p.perm_inOrder⟩, fun w => read_eq_ok_iff.2 (words_text w), ?_⟩
  · rw [read_eq_ok_iff, output_eq, words_flatMap]
    rfl
  · rw [output_eq, lines_flatMap_text, List.map_map]
    rfl
  intro s items hitems hshort
  obtain rfl := hitems.eq_words
  refine ⟨⟨?_, exists_read_of_forall_isTryte⟩, ?_, ?_⟩
  · rintro ⟨w, hw⟩
    exact forall_isTryte_of_read hw
  · intro w hw
    exact (read_eq_ok_iff.1 hw).symm
  · intro hbad
    obtain ⟨earlier, item, later, fault, hsplit, hearlier, hitem, hkind, hread⟩ :=
      exists_readFrom_eq_error 0 hshort hbad
    rw [Nat.zero_add] at hread
    exact ⟨earlier, item, later, fault, hsplit, hearlier, hitem, hkind, hread⟩

/-- The second of three items is too short to be a tryte. -/
def shortTryte : Text := "λ01λ01\t000 \n111111 ".toList

theorem shortTryte_refused :
    Text.HasItems shortTryte ["λ01λ01".toList, "000".toList, "111111".toList] ∧
    (∀ item ∈ ["λ01λ01".toList, "000".toList, "111111".toList], Text.byteSize item < 65536) ∧
    ∃ fault, fault.kind = .invalidNumeral ∧ read shortTryte = .error (.tryte 1 fault) := by
  have hitems : Text.HasItems shortTryte ["λ01λ01".toList, "000".toList, "111111".toList] :=
    Text.hasItems_iff.2 (by decide +kernel)
  have hshort : ∀ item ∈ ["λ01λ01".toList, "000".toList, "111111".toList],
      Text.byteSize item < 65536 := by
    decide +kernel
  obtain ⟨-, -, hbad⟩ := read_inverts_text.2.2 shortTryte _ hitems hshort
  obtain ⟨earlier, item, later, fault, hsplit, hearlier, hitem, hkind, hread⟩ :=
    hbad (by decide +kernel)
  refine ⟨hitems, hshort, fault, hkind, ?_⟩
  -- The first item is a tryte and the second is none.
  match earlier with
  | [] => exact absurd ((List.cons.inj hsplit).1 ▸ by decide +kernel) hitem
  | [_] => exact hread
  | _ :: second :: _ =>
    have hsecond := hearlier second (List.mem_cons_of_mem _ List.mem_cons_self)
    rw [← (List.cons.inj (List.cons.inj hsplit).2).1] at hsecond
    exact absurd hsecond (by decide +kernel)

end Image

end BalancedTernary
