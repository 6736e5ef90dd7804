import BalancedTernary.Output
import BalancedTernary.Proofs.CheckedAssembly
import BalancedTernary.Proofs.Extent
import BalancedTernary.Proofs.ImageText
import BalancedTernary.Proofs.PrintedRows
import BalancedTernary.Proofs.SourceLines

/-!
# The lines of a listing

A listing shows every tryte of a program. The trytes of a fragment stand on as many lines as it
takes to have a given number on each, behind the columns of the addresses, and they can be read back
from the lines. Someone who stops taking lines has the first of them.
-/

namespace BalancedTernary

/-! ## Texts and rows -/

namespace Text

variable {p : Char → Bool} {c : Char}

theorem trimEndBy_append_cons (hc : p c = false) (s t : Text) :
    trimEndBy p (s ++ c :: t) = s ++ c :: trimEndBy p t := by
  have hstop : List.dropWhile p (c :: s.reverse) = c :: s.reverse := by simp [hc]
  unfold trimEndBy
  rw [List.reverse_append, List.reverse_cons, List.append_assoc, List.singleton_append,
    List.dropWhile_append, hstop]
  split
  · rename_i hnil
    simp [List.isEmpty_iff.1 hnil]
  · simp

theorem trimEndBy_eq_self {s : Text} (h : ∀ c ∈ s.getLast?, p c = false) : trimEndBy p s = s := by
  unfold trimEndBy
  rw [dropWhile_eq_self (by rwa [List.head?_reverse]), List.reverse_reverse]

theorem getLast?_trimEndBy_ne (hc : p c = true) (s : Text) :
    (trimEndBy p s).getLast? ≠ some c := by
  intro h
  have hhead := List.head?_dropWhile_not p s.reverse
  unfold trimEndBy at h
  rw [List.getLast?_reverse] at h
  simp [h, hc] at hhead

theorem prefix_trimEndBy (s : Text) : trimEndBy p s <+: s := by
  rw [← List.reverse_suffix]
  unfold trimEndBy
  rw [List.reverse_reverse]
  exact List.dropWhile_suffix p

theorem head?_trimEndBy {s : Text} (h : c ∈ (trimEndBy p s).head?) : c ∈ s.head? := by
  obtain ⟨t, ht⟩ := prefix_trimEndBy (p := p) s
  rw [← ht, List.head?_append, h]
  rfl

theorem isBlank_of_mem_spaces {k : Nat} (h : c ∈ List.replicate k ' ') : isBlank c = true := by
  rw [List.eq_of_mem_replicate h]
  decide

theorem mem_of_mem_trim {s : Text} (h : c ∈ trim s) : c ∈ s :=
  (List.dropWhile_suffix isBlank).subset ((prefix_trimEndBy _).subset h)

theorem eq_of_cut? {mark s head rest : Text} (h : cut? mark s = some (head, rest)) :
    s = head ++ mark ++ rest := by
  induction s generalizing head with
  | nil =>
    unfold cut? at h
    split at h
    · rename_i hmark
      obtain ⟨rfl, rfl⟩ := Prod.mk.inj (Option.some.inj h)
      rw [List.isEmpty_iff.1 hmark]
      rfl
    · cases h
  | cons c s ih =>
    unfold cut? at h
    split at h
    · rename_i hmark
      obtain ⟨rfl, rfl⟩ := Prod.mk.inj (Option.some.inj h)
      obtain ⟨t, ht⟩ := List.isPrefixOf_iff_prefix.1 hmark
      rw [← ht, List.drop_left]
      rfl
    · obtain ⟨⟨before, after⟩, hcut, heq⟩ := Option.map_eq_some_iff.1 h
      obtain ⟨rfl, rfl⟩ := Prod.mk.inj heq
      rw [ih hcut]
      rfl

theorem mem_of_mem_before {mark s : Text} (h : c ∈ before mark s) : c ∈ s := by
  unfold before at h
  split at h
  · rename_i head rest hcut
    rw [eq_of_cut? hcut, List.append_assoc]
    exact List.mem_append_left _ h
  · exact h

theorem lineFeed_notMem_of_mem_lines {s l : Text} (h : l ∈ lines s) : '\n' ∉ l := by
  intro hmem
  have hfeed := separates_of_mem_splitOnP h _ hmem
  simp at hfeed

end Text

namespace Word

theorem text_cons_cons (t u : Tryte) (w : Word) :
    text (t :: u :: w) = t.text ++ ' ' :: text (u :: w) := by
  unfold text
  rw [List.map_cons, List.map_cons, Text.join_cons_cons, List.append_assoc]
  rfl

/-- Six columns for each tryte, and one between each two. -/
theorem length_text_add_one {w : Word} (hw : w ≠ []) : w.text.length + 1 = 7 * w.length := by
  match w with
  | [t] => rfl
  | t :: u :: w =>
    have ih := length_text_add_one (List.cons_ne_nil u w)
    have ht : t.text.length = 6 := rfl
    rw [text_cons_cons, List.length_append, List.length_cons, List.length_cons, ht]
    omega

theorem text_ne_nil {w : Word} (hw : w ≠ []) : w.text ≠ [] := by
  have hlength := length_text_add_one hw
  have hpos := List.length_pos_iff.2 hw
  apply List.ne_nil_of_length_pos
  omega

theorem getLast?_text_ne (w : Word) : w.text.getLast? ≠ some ' ' := by
  match w with
  | [] =>
    intro h
    cases h
  | [t] =>
    show some t.low.low.glyph ≠ some ' '
    cases t.low.low <;> decide
  | t :: u :: w =>
    rw [text_cons_cons, List.append_cons,
      List.getLast?_append_of_ne_nil _ (text_ne_nil (List.cons_ne_nil u w))]
    exact getLast?_text_ne (u :: w)

/-- As many rows as it takes. -/
theorem length_rows {n : Nat} (hn : 0 < n) {w : Word} (hw : w ≠ []) :
    (w.rows n).length = (w.length + n - 1) / n := by
  fun_induction rows n w with
  | case1 w hshort =>
    have hpos := List.length_pos_iff.2 hw
    rw [List.length_singleton, Nat.div_eq_of_lt_le] <;> omega
  | case2 w hlong ih =>
    have hdrop : (w.drop n).length = w.length - n := List.length_drop
    have hne : w.drop n ≠ [] := List.ne_nil_of_length_pos (by omega)
    rw [List.length_cons, ih hne, hdrop, ← Nat.add_div_right _ hn]
    congr 1
    omega

end Word

namespace Assembly

open Text

/-! ## Lines -/

namespace Listing

/-- Whether the columns in front of the trytes are blank. -/
def continues (line : Text) : Bool := (line.take 13).all (· == ' ')

/-- The trytes on a line, as texts: its words up to the mark of the source text. A line that does
not continue another one has two addresses in front of them. -/
def shownTrytes (line : Text) : List Text :=
  ((words line).takeWhile (· != [';'])).drop (if continues line then 0 else 2)

/-- How many trytes go on a line, where 64 bits hold all that is computed. -/
theorem perLine_eq {width : Int64} (hlo : -2 ^ 62 ≤ width.toInt) :
    (perLine width : Int) = max 1 ((width.toInt - 15).tdiv 7) := by
  have hhi := width.toInt_lt
  have hone : (1 : Int64).toInt = 1 := rfl
  have hsub : (width - 15).toInt = width.toInt - 15 := by
    rw [Int64.toInt_sub]
    show Int.bmod (width.toInt - 15) _ = _
    rw [Int.bmod_eq_of_le] <;> omega
  have hcount : ((width - 15) / 7).toInt = (width.toInt - 15).tdiv 7 := by
    rw [Int64.toInt_div_of_ne_right _ _ (by decide), hsub]
    rfl
  unfold perLine
  dsimp only
  rw [← hcount]
  split
  · rename_i hsmall
    rw [Int64.lt_iff_toInt_lt, hone] at hsmall
    omega
  · rename_i hlarge
    rw [Int64.lt_iff_toInt_lt, hone] at hlarge
    omega

theorem length_machineAddress (base : Int64) (address : Nat) :
    (machineAddress base address).length = 4 := by
  unfold machineAddress
  split
  · rename_i word hword
    rw [Word.symbols_eq_map, List.length_map, Word.length_triads,
      Word.length_of_ofInt (n := 2) rfl (by decide) hword]
  · exact List.length_replicate

theorem isBlank_machineAddress {base : Int64} {address : Nat} {c : Char}
    (hc : c ∈ machineAddress base address) : isBlank c = false := by
  unfold machineAddress at hc
  split at hc
  · have htable : Triad.symbols.all (fun c => !isBlank c) = true := by decide
    rw [Word.symbols_eq_map] at hc
    obtain ⟨t, -, rfl⟩ := List.mem_map.1 hc
    simpa using List.all_eq_true.1 htable _ (List.mem_of_getElem? t.getElem?_symbols)
  · rw [List.eq_of_mem_replicate hc]
    decide

/-- The columns of the two addresses. -/
def addressColumns (base : Int64) (f : LinkedFragment) : Text :=
  padLeft ' ' 5 (natural f.address) ++ [' ', ' '] ++ machineAddress base f.address ++ [' ', ' ']

variable {base : Int64} {n : Nat} {f : LinkedFragment} {row : Word}

/-- Nothing is cut off a first line in front of the source text. -/
theorem trim_firstLine (base : Int64) (n : Nat) (f : LinkedFragment) (row : Word) :
    trimEndBy (· == ' ') (firstLine base n f row) =
      addressColumns base f ++ (column (n * tryteColumns - 1) row.text ++
        ' ' :: ' ' :: ';' :: trimEndBy (· == ' ') (' ' :: sourceText f)) := by
  have hline : firstLine base n f row = (addressColumns base f ++
      (column (n * tryteColumns - 1) row.text ++ [' ', ' '])) ++ ';' :: ' ' :: sourceText f := by
    simp [firstLine, addressColumns]
  rw [hline, trimEndBy_append_cons (by decide)]
  simp

theorem column_append {width : Nat} (hwidth : width ≤ 1000000) (s rest : Text) :
    column width s ++ ' ' :: ' ' :: rest =
      s ++ ' ' :: (List.replicate (width - s.length + 1) ' ' ++ rest) := by
  have hgap (m : Nat) :
      List.replicate m ' ' ++ ' ' :: ' ' :: rest = ' ' :: (List.replicate (m + 1) ' ' ++ rest) := by
    rw [← List.cons_append, ← List.replicate_succ, List.replicate_succ', List.replicate_succ']
    simp
  unfold column padRight
  rw [if_neg (by omega), List.append_assoc, hgap]

theorem trim_nextLine (hrow : row ≠ []) : trimEndBy (· == ' ') (nextLine row) = nextLine row := by
  apply trimEndBy_eq_self
  intro c hc
  unfold nextLine at hc
  rw [List.getLast?_append_of_ne_nil _ (Word.text_ne_nil hrow)] at hc
  have hspace : c ≠ ' ' := by
    rintro rfl
    exact row.getLast?_text_ne hc
  simpa using hspace

/-! ## Words on a line -/

theorem words_addressColumns_append (s : Text) :
    words (addressColumns base f ++ s) =
      natural f.address :: machineAddress base f.address :: words s := by
  have hspace : isBlank ' ' = true := by decide
  have hdigits : ∀ c ∈ natural f.address, isBlank c = false := by
    intro c hc
    have hbounds := isDigit_bounds (isDigit_of_mem_natural hc)
    simp [isBlank]
    omega
  have haddress : words (padLeft ' ' 5 (natural f.address)) = [natural f.address] := by
    unfold words padLeft
    rw [fields_append fun c => isBlank_of_mem_spaces, fields_token (natural_ne_nil _) hdigits]
  have hmachine : words (machineAddress base f.address) = [machineAddress base f.address] := by
    apply fields_token _ fun c hc => isBlank_machineAddress hc
    apply List.ne_nil_of_length_pos
    rw [length_machineAddress]
    decide
  have hline : addressColumns base f ++ s = padLeft ' ' 5 (natural f.address) ++ ' ' :: ' ' ::
      (machineAddress base f.address ++ ' ' :: ' ' :: s) := by
    simp [addressColumns]
  unfold words at haddress hmachine ⊢
  rw [hline, fields_append_cons _ _ hspace, fields_cons _ hspace, fields_append_cons _ _ hspace,
    fields_cons _ hspace, haddress, hmachine]
  rfl

/-- The addresses, the trytes, and then the mark of the source text, which stands alone. -/
theorem exists_words_firstLine (hn : n * tryteColumns - 1 ≤ 1000000) (base : Int64)
    (f : LinkedFragment) (row : Word) :
    ∃ rest, words (trimEndBy (· == ' ') (firstLine base n f row)) =
      (natural f.address :: machineAddress base f.address :: row.map Tryte.text) ++
        [';'] :: rest := by
  have hspace : isBlank ' ' = true := by decide
  have hmark : ∀ c ∈ [';'], isBlank c = false := List.forall_mem_singleton.2 (by decide)
  have htail : ∀ c ∈ (trimEndBy (· == ' ') (' ' :: sourceText f)).head?, isBlank c = true := by
    intro c hc
    rw [← Option.some.inj (head?_trimEndBy hc)]
    exact hspace
  -- A space follows the mark, or nothing does, so the mark is a word of its own.
  have hsource := fields_append_of_head [';'] htail
  rw [fields_token (List.cons_ne_nil ';' []) hmark] at hsource
  refine ⟨words (trimEndBy (· == ' ') (' ' :: sourceText f)), ?_⟩
  rw [trim_firstLine, column_append hn, words_addressColumns_append, ← Image.words_text]
  unfold words
  rw [fields_append_cons _ _ hspace, fields_append fun c => isBlank_of_mem_spaces]
  exact congrArg (fun rest => natural f.address :: machineAddress base f.address ::
    (fields isBlank row.text ++ rest)) hsource

/-! ## Trytes on a line -/

theorem continues_firstLine (base : Int64) (n : Nat) (f : LinkedFragment) (row : Word) :
    continues (trimEndBy (· == ' ') (firstLine base n f row)) = false := by
  cases hdigits : natural f.address with
  | nil => exact absurd hdigits (natural_ne_nil _)
  | cons d ds =>
    have hd : d ≠ ' ' := by
      rintro rfl
      have hdigit := isDigit_of_mem_natural (n := f.address) (hdigits ▸ List.mem_cons_self)
      exact absurd hdigit (by decide)
    -- The first digit is among the first five characters.
    have hmem (rest : Text) :
        d ∈ (List.replicate (5 - (d :: ds).length) ' ' ++ d :: rest).take 13 := by
      have hm : 13 - (5 - (d :: ds).length) = 12 - (5 - (d :: ds).length) + 1 := by omega
      rw [List.take_append, List.length_replicate, hm, List.take_succ_cons]
      exact List.mem_append_right _ List.mem_cons_self
    rw [trim_firstLine]
    unfold continues addressColumns padLeft
    rw [hdigits, List.all_eq_false]
    simp only [List.append_assoc, List.cons_append]
    exact ⟨d, hmem _, by simpa using hd⟩

theorem continues_nextLine (row : Word) : continues (nextLine row) = true := by
  unfold continues nextLine margin
  rw [List.take_left' List.length_replicate]
  decide

theorem takeWhile_append_trytes (row : Word) (rest : List Text) :
    (row.map Tryte.text ++ rest).takeWhile (· != [';']) =
      row.map Tryte.text ++ rest.takeWhile (· != [';']) := by
  apply List.takeWhile_append_of_pos
  intro s hs
  obtain ⟨t, -, rfl⟩ := List.mem_map.1 hs
  -- A tryte has six characters, and the mark has one.
  have hne : t.text ≠ [';'] := by
    intro h
    have hlength : t.text.length = 6 := rfl
    rw [h] at hlength
    exact absurd hlength (by decide)
  simpa using hne

theorem shownTrytes_firstLine (hn : n * tryteColumns - 1 ≤ 1000000) :
    shownTrytes (trimEndBy (· == ' ') (firstLine base n f row)) = row.map Tryte.text := by
  obtain ⟨rest, hwords⟩ := exists_words_firstLine hn base f row
  have haddress : natural f.address ≠ [';'] := by
    intro h
    have hdigit := isDigit_of_mem_natural (n := f.address) (h ▸ List.mem_cons_self)
    exact absurd hdigit (by decide)
  have hmachine : machineAddress base f.address ≠ [';'] := by
    intro h
    have hlength := length_machineAddress base f.address
    rw [h] at hlength
    exact absurd hlength (by decide)
  unfold shownTrytes
  rw [continues_firstLine, hwords, List.cons_append, List.cons_append,
    List.takeWhile_cons_of_pos (by simpa using haddress),
    List.takeWhile_cons_of_pos (by simpa using hmachine), takeWhile_append_trytes]
  simp

theorem shownTrytes_nextLine (row : Word) : shownTrytes (nextLine row) = row.map Tryte.text := by
  have hwords : words (nextLine row) = row.map Tryte.text := by
    rw [← Image.words_text]
    exact fields_append (fun c => isBlank_of_mem_spaces) row.text
  have hall := takeWhile_append_trytes row []
  rw [List.append_nil, List.takeWhile_nil, List.append_nil] at hall
  unfold shownTrytes
  rw [continues_nextLine, hwords, hall]
  rfl

/-! ## Columns -/

theorem length_addressColumns (hf : f.address ≤ 99999) : (addressColumns base f).length = 13 := by
  have hdigits : (natural f.address).length ≤ 5 :=
    (Nat.length_toDigits_le_iff (by decide) (by decide)).2 (by omega)
  simp only [addressColumns, padLeft, List.length_append, List.length_replicate,
    length_machineAddress, List.length_cons, List.length_nil]
  omega

/-- With an address of up to five digits, the trytes have their columns on the first line. -/
theorem text_prefix_firstLine (hn : n * tryteColumns - 1 ≤ 1000000) (hf : f.address ≤ 99999) :
    row.text <+: (trimEndBy (· == ' ') (firstLine base n f row)).drop 13 := by
  rw [trim_firstLine, column_append hn, List.drop_left' (length_addressColumns hf)]
  exact List.prefix_append _ _

theorem text_prefix_nextLine (row : Word) : row.text <+: (nextLine row).drop 13 := by
  have hdrop : (nextLine row).drop 13 = row.text := List.drop_left' List.length_replicate
  exact ⟨[], by rw [hdrop, List.append_nil]⟩

/-! ## Line ends -/

theorem lineFeed_notMem_text (w : Word) : '\n' ∉ w.text := by
  have htryte (t : Tryte) : '\n' ∉ t.text := by
    intro h
    exact absurd ((Image.tryte_ne_nil_and_not_blank t).2 _ h) (by decide)
  match w with
  | [] => exact List.not_mem_nil
  | [t] => exact htryte t
  | t :: u :: w =>
    rw [Word.text_cons_cons, List.mem_append, List.mem_cons, not_or, not_or]
    exact ⟨htryte t, by decide, lineFeed_notMem_text (u :: w)⟩

theorem lineFeed_notMem_addressColumns : '\n' ∉ addressColumns base f := by
  have haddress : '\n' ∉ natural f.address := by
    intro h
    exact absurd (isDigit_of_mem_natural h) (by decide)
  have hmachine : '\n' ∉ machineAddress base f.address := by
    intro h
    exact absurd (isBlank_machineAddress h) (by decide)
  simp [addressColumns, padLeft, List.mem_replicate, haddress, hmachine]

theorem lineFeed_notMem_nextLine (row : Word) : '\n' ∉ nextLine row := by
  simp [nextLine, List.mem_replicate, lineFeed_notMem_text]

theorem lineFeed_notMem_firstLine (hn : n * tryteColumns - 1 ≤ 1000000)
    (hsource : '\n' ∉ sourceText f) :
    '\n' ∉ trimEndBy (· == ' ') (firstLine base n f row) := by
  have htail : '\n' ∉ trimEndBy (· == ' ') (' ' :: sourceText f) := by
    intro h
    have hmem := (prefix_trimEndBy _).subset h
    simp [hsource] at hmem
  rw [trim_firstLine, column_append hn]
  simp [List.mem_replicate, lineFeed_notMem_addressColumns, lineFeed_notMem_text, htail]

/-! ## Lines of a fragment -/

/-- The lines of a fragment, as they stand in the listing. -/
def block (base : Int64) (n : Nat) (f : LinkedFragment) : List Text :=
  (fragmentLines base n f).map (trimEndBy (· == ' '))

theorem flatten_blocks (width : Int64) (p : Program) :
    (p.inOrder.map (block p.base (perLine width))).flatten = lines width p := by
  unfold lines block
  rw [List.map_flatMap]
  rfl

/-- A fragment has a first line, and one more for each further row. -/
theorem exists_block (hcode : f.code ≠ []) (base : Int64) (n : Nat) :
    ∃ first rest, f.code.rows n = first :: rest ∧
      block base n f = trimEndBy (· == ' ') (firstLine base n f first) :: rest.map nextLine := by
  cases hrows : f.code.rows n with
  | nil =>
    have hflatten := f.code.flatten_rows n
    rw [hrows] at hflatten
    exact absurd hflatten.symm hcode
  | cons first rest =>
    refine ⟨first, rest, rfl, ?_⟩
    -- A further line ends with a tryte, so trimming leaves it as it is.
    have hrest : (rest.map nextLine).map (trimEndBy (· == ' ')) = rest.map nextLine := by
      rw [List.map_map]
      apply List.map_congr_left
      intro row hrow
      apply trim_nextLine
      apply Word.ne_nil_of_mem_rows hcode (n := n)
      rw [hrows]
      exact List.mem_cons_of_mem _ hrow
    unfold block fragmentLines
    rw [hrows, List.map_cons, hrest]

/-- The trytes on `line` are those of `row`. Behind an address of up to five digits they start in
column 13, and they leave three of `width` columns free, unless there is room for one tryte only. -/
structure Shows (width : Int) (f : LinkedFragment) (line : Text) (row : Word) : Prop where
  trytes : shownTrytes line = row.map Tryte.text
  columns : f.address ≤ 99999 →
    row.text <+: line.drop 13 ∧ (13 + row.text.length : Int) ≤ max (width - 3) 19

/-- `block` shows the trytes of `f`, as many as `n` on each line but the last. -/
structure Lists (width : Int) (n : Nat) (f : LinkedFragment) (block : List Text) : Prop where
  length_eq : block.length = (f.length + n - 1) / n
  rows : ∃ rows : List Word, rows.flatten = f.code ∧ (∀ row ∈ rows.dropLast, row.length = n) ∧
    (∀ row ∈ rows, 1 ≤ row.length) ∧ List.Forall₂ (Shows width f) block rows

section Width

variable {width : Int64} (hlo : -2 ^ 62 ≤ width.toInt)

include hlo

theorem seven_mul_perLine_le : (7 * perLine width : Int) ≤ max (width.toInt - 15) 7 := by
  have hcount := perLine_eq hlo
  have hquotient := Int.mul_tdiv_add_tmod (width.toInt - 15) 7
  have hremainder := Int.lt_tmod_of_pos (width.toInt - 15) (b := 7) (by decide)
  -- The remainder has the sign of the dividend, and a negative one has no quotient above zero.
  by_cases hsmall : width.toInt - 15 < 0
  · omega
  · have hnonneg := Int.tmod_nonneg (a := width.toInt - 15) 7 (by omega)
    omega

theorem columns_le (hhi : width.toInt ≤ 10 ^ 6) :
    perLine width * tryteColumns - 1 ≤ 1000000 := by
  have hle := seven_mul_perLine_le hlo
  unfold tryteColumns
  omega

theorem text_le (hne : row ≠ []) (hrow : row.length ≤ perLine width) :
    (13 + row.text.length : Int) ≤ max (width.toInt - 3) 19 := by
  have hle := seven_mul_perLine_le hlo
  have hlength := Word.length_text_add_one hne
  omega

theorem lists_block (hhi : width.toInt ≤ 10 ^ 6) (hlength : f.code.length = f.length)
    (hcode : f.code ≠ []) (base : Int64) :
    Lists width.toInt (perLine width) f (block base (perLine width) f) := by
  have hpos := Checked.perLine_pos width
  have hn := columns_le hlo hhi
  have hne : ∀ row ∈ f.code.rows (perLine width), row ≠ [] :=
    fun row hrow => Word.ne_nil_of_mem_rows hcode hrow
  have hfits : ∀ row ∈ f.code.rows (perLine width),
      (13 + row.text.length : Int) ≤ max (width.toInt - 3) 19 := by
    intro row hrow
    exact text_le hlo (hne row hrow) (Word.length_le_of_mem_rows (by omega) hrow)
  obtain ⟨first, rest, hrows, hblock⟩ := exists_block hcode base (perLine width)
  constructor
  case length_eq =>
    rw [hblock, ← hlength, ← Word.length_rows hpos hcode, hrows]
    simp
  case rows =>
    refine ⟨f.code.rows (perLine width), f.code.flatten_rows _,
      fun _ => Word.length_of_mem_dropLast_rows,
      fun row hrow => List.length_pos_iff.2 (hne row hrow), ?_⟩
    rw [hrows] at hfits ⊢
    rw [List.forall_mem_cons] at hfits
    rw [hblock]
    apply List.Forall₂.cons
    · exact ⟨shownTrytes_firstLine hn, fun hf => ⟨text_prefix_firstLine hn hf, hfits.1⟩⟩
    · rw [List.forall₂_map_left_iff, List.forall₂_same]
      intro row hrow
      exact ⟨shownTrytes_nextLine row, fun _ => ⟨text_prefix_nextLine row, hfits.2 row hrow⟩⟩

theorem lineFeed_notMem_block (hhi : width.toInt ≤ 10 ^ 6) (hcode : f.code ≠ [])
    (hsource : '\n' ∉ sourceText f) {line : Text}
    (hline : line ∈ block base (perLine width) f) : '\n' ∉ line := by
  obtain ⟨first, rest, -, hblock⟩ := exists_block hcode base (perLine width)
  rw [hblock] at hline
  obtain rfl | hline := List.mem_cons.1 hline
  · exact lineFeed_notMem_firstLine (columns_le hlo hhi) hsource
  · obtain ⟨row, -, rfl⟩ := List.mem_map.1 hline
    exact lineFeed_notMem_nextLine row

end Width

theorem getLast?_ne_of_mem_lines {width : Int64} {p : Program} {line : Text}
    (h : line ∈ lines width p) : line.getLast? ≠ some ' ' := by
  obtain ⟨s, -, rfl⟩ := List.mem_map.1 h
  exact getLast?_trimEndBy_ne (by decide) s

end Listing

/-! ## Source texts -/

theorem mem_of_mem_withoutComment {comment line : Text} {c : Char}
    (h : c ∈ withoutComment comment line) : c ∈ line := by
  unfold withoutComment at h
  split at h
  · exact h
  · exact mem_of_mem_before h

theorem Statement.lineFeed_notMem_text {comment source : Text} {s : Statement}
    (h : s ∈ statements comment source) : '\n' ∉ s.text := by
  obtain ⟨line, hline, htext⟩ := Option.map_eq_some_iff.1 (mem_statements_iff.1 h).text_eq
  rw [← htext]
  intro hmem
  exact lineFeed_notMem_of_mem_lines (List.mem_of_getElem? hline)
    (mem_of_mem_withoutComment (mem_of_mem_trim hmem))

/-- A fragment says nothing that its statement does not. -/
theorem Statement.Yields.mem_text {s : Statement} {f : Fragment} (h : s.Yields f) {c : Char}
    (hc : (∃ label ∈ f.label, c ∈ label) ∨ c ∈ f.source) : c ∈ s.text := by
  obtain ⟨label, body, hsplit, hencode⟩ := h
  obtain ⟨slots, -, rfl⟩ := Statement.encode_eq_ok_iff.1 hencode
  unfold Statement.split at hsplit
  split at hsplit
  · obtain ⟨rfl, rfl⟩ := Prod.mk.inj (Except.ok.inj hsplit)
    obtain ⟨label, hlabel, -⟩ | hc := hc
    · cases hlabel
    · exact mem_of_mem_trim hc
  · rename_i head rest hcut
    dsimp only at hsplit
    split at hsplit
    · cases hsplit
    · split at hsplit
      · cases hsplit
      · obtain ⟨rfl, rfl⟩ := Prod.mk.inj (Except.ok.inj hsplit)
        rw [eq_of_cut? hcut, List.append_assoc, List.mem_append, List.mem_append]
        obtain ⟨label, hlabel, hc⟩ | hc := hc
        · obtain rfl := Option.some.inj hlabel
          exact .inl (mem_of_mem_trim hc)
        · exact .inr (.inr (mem_of_mem_trim hc))

theorem lineFeed_notMem_sourceText {comment source : Text} {s : Statement} {u : LinkedFragment}
    (hs : s ∈ statements comment source) (hu : s.Yields u.toFragment) :
    '\n' ∉ Listing.sourceText u := by
  have htext := Statement.lineFeed_notMem_text hs
  intro hmem
  unfold Listing.sourceText at hmem
  split at hmem
  · rename_i label hlabel
    simp only [List.append_assoc, List.mem_append] at hmem
    obtain hmem | hmem | hmem := hmem
    · exact htext (hu.mem_text (.inl ⟨label, hlabel, hmem⟩))
    · exact absurd hmem (by decide)
    · exact htext (hu.mem_text (.inr hmem))
  · exact htext (hu.mem_text (.inr hmem))

end Assembly

/-! ## Delivery -/

/-- Someone who has taken some text and takes some more parts. -/
structure Recipient where
  taken : Text
  room : Nat

namespace Recipient

/-- The recipient with one more part, unless there is no room for it. -/
def take? (r : Recipient) (part : Text) : Option Recipient :=
  match r.room with
  | 0 => none
  | room + 1 => some ⟨r.taken ++ part, room⟩

/-- Offers the parts one after the other until one is refused. -/
def offer (r : Recipient) : List Text → Delivery
  | [] => ⟨r.taken, true⟩
  | part :: rest =>
    match r.take? part with
    | none => ⟨r.taken, false⟩
    | some r => r.offer rest

/-- The parts that there is room for are taken. -/
theorem offer_eq (r : Recipient) (parts : List Text) :
    r.offer parts = ⟨r.taken ++ (parts.take r.room).flatten, parts.length ≤ r.room⟩ := by
  induction parts generalizing r with
  | nil => simp [offer]
  | cons part rest ih =>
    obtain ⟨taken, room⟩ := r
    cases room with
    | zero => simp [offer, take?]
    | succ room => simp [offer, take?, ih]

end Recipient

theorem deliver_eq_offer (n : Nat) (parts : List Text) :
    deliver (some n) parts = Recipient.offer ⟨[], n⟩ parts := by
  rw [Recipient.offer_eq]
  rfl

namespace Assembly

/-! ## Listings of programs -/

theorem Program.Links.code_ne_nil {p : Program} {base : Int64} {table : SymbolTable Nat}
    {fragments : List Fragment} (h : p.Links base table fragments) {found : List Statement}
    (hyields : List.Forall₂ Statement.Yields found fragments) {u : LinkedFragment}
    (hu : u ∈ p.inOrder) : u.code ≠ [] := by
  apply List.ne_nil_of_length_pos
  rw [h.length_code (h.mem_inOrder hu).1]
  exact h.length_pos hyields hu

/-- What the listing of `p` in `width` columns is, with `n` trytes to a line. -/
structure Program.ListedIn (p : Program) (width : Int64) (n : Nat) : Prop where
  fragments : ∃ blocks : List (List Text), blocks.flatten = Listing.lines width p ∧
    List.Forall₂ (Listing.Lists width.toInt n) p.inOrder blocks
  lineEnds : ∀ line ∈ Listing.lines width p, '\n' ∉ line ∧ line.getLast? ≠ some ' '
  whole : p.deliverListing width none =
    ⟨(Listing.lines width p).flatMap fun line => line ++ ['\n'], true⟩
  /-- Lines are offered until one is refused, and those before it are delivered. -/
  partly : ∀ k, p.deliverListing width (some k) =
      Recipient.offer ⟨[], k⟩ ((Listing.lines width p).map fun line => line ++ ['\n']) ∧
    (p.deliverListing width (some k)).text =
      ((Listing.lines width p).take k).flatMap fun line => line ++ ['\n']

/-- A listing shows all trytes of a program, each fragment on lines of its own. -/
theorem listing_complete {config : Config} {source : Text} {p : Program}
    (h : assemble config source = .ok p) {width : Int64} (hlo : -2 ^ 62 ≤ width.toInt)
    (hhi : width.toInt ≤ 10 ^ 6) {n : Nat} (hn : (n : Int) = max 1 ((width.toInt - 15).tdiv 7)) :
    p.ListedIn width n := by
  obtain ⟨table, fragments, hread, hlinks⟩ := assemble_eq_ok_iff.1 h
  obtain ⟨hyields, -⟩ := readFrom_eq_ok_iff.1 hread
  obtain rfl : n = Listing.perLine width := by
    have hcount := Listing.perLine_eq hlo
    omega
  constructor
  case fragments =>
    refine ⟨_, Listing.flatten_blocks width p, ?_⟩
    rw [List.forall₂_map_right_iff, List.forall₂_same]
    intro u hu
    exact Listing.lists_block hlo hhi (hlinks.length_code (hlinks.mem_inOrder hu).1)
      (hlinks.code_ne_nil hyields hu) p.base
  case lineEnds =>
    intro line hline
    refine ⟨?_, Listing.getLast?_ne_of_mem_lines hline⟩
    rw [← Listing.flatten_blocks] at hline
    obtain ⟨block, hblock, hline⟩ := List.mem_flatten.1 hline
    obtain ⟨u, hu, rfl⟩ := List.mem_map.1 hblock
    obtain ⟨s, hs, hsu⟩ := hlinks.exists_yields hyields hu
    exact Listing.lineFeed_notMem_block hlo hhi (hlinks.code_ne_nil hyields hu)
      (lineFeed_notMem_sourceText hs hsu) hline
  case whole => simp [Program.deliverListing, Program.listingParts, deliver, List.flatMap]
  case partly =>
    intro k
    refine ⟨deliver_eq_offer k _, ?_⟩
    simp [Program.deliverListing, Program.listingParts, deliver, List.flatMap, List.map_take]

/-- A directive of six trytes in front of an instruction of four. -/
def wrapped : Text := ".data\nd: pair 1, -2, d\n.code\njmp d".toList

/-- Three trytes go on a line of 36 columns, so the four of the instruction take two lines, and the
six of the directive too. -/
theorem wrapped_listing :
    ∃ p, assemble .default wrapped = .ok p ∧ p.ListedIn 36 3 ∧ Listing.lines 36 p =
      ["    0  00FF  01000λ 000100 000000  ; jmp d".toList,
        "             000000".toList,
        "    4  00FN  000000 000001 000000  ; d: pair 1, -2, d".toList,
        "             0000λ1 000000 λλλλ00".toList] := by
  have hlines : (assemble .default wrapped).map (Listing.lines 36) =
      .ok ["    0  00FF  01000λ 000100 000000  ; jmp d".toList,
        "             000000".toList,
        "    4  00FN  000000 000001 000000  ; d: pair 1, -2, d".toList,
        "             0000λ1 000000 λλλλ00".toList] := by
    decide +kernel
  obtain ⟨p, hp, hvalues⟩ := Outcome.map_eq_ok.1 hlines
  exact ⟨p, hp, listing_complete hp (by decide) (by decide) (by decide), hvalues⟩

end Assembly

end BalancedTernary
