import BalancedTernary.Proofs.Symbols

/-!
# Statements and the lines they stand on

A statement knows the number of its line. That line, the section marker before it and the comment
mark determine the statement, and the lines after it have no part in it.
-/

namespace BalancedTernary.Assembly

/-- What a line says, without its comment and the white space around it. -/
def lineContent (comment line : Text) : Text := Text.trim (withoutComment comment line)

theorem lineContent_singleton (mark : Char) (line : Text) :
    lineContent [mark] line = Text.trim (Text.before [mark] line) :=
  rfl

/-- The segment that a line enters, if it is a section marker. -/
def marker? (comment line : Text) : Option Segment := Segment.ofText? (lineContent comment line)

/-- The segment after the given lines, when it was `segment` before them. -/
def segmentAfter (comment : Text) (segment : Option Segment) (lines : List Text) :
    Option Segment :=
  (lines.filterMap (marker? comment)).getLast?.or segment

/-- The last marker counts. -/
theorem segmentAfter_cons (comment : Text) (segment : Option Segment) (line : Text)
    (lines : List Text) :
    segmentAfter comment segment (line :: lines) =
      segmentAfter comment ((marker? comment line).or segment) lines := by
  unfold segmentAfter
  cases hmarker : marker? comment line with
  | none => rw [List.filterMap_cons_none hmarker, Option.none_or]
  | some entered =>
    rw [List.filterMap_cons_some hmarker, List.getLast?_cons]
    cases (lines.filterMap (marker? comment)).getLast? <;> rfl

/-! ## One line -/

namespace SourceLine

/-- The source line of a line with the number `n`, if it is neither blank nor a section marker. -/
def ofLine? (comment : Text) (segment : Option Segment) (n : Nat) (line : Text) :
    Option SourceLine :=
  let content := lineContent comment line
  if content = [] ∨ (Segment.ofText? content).isSome then none else some ⟨n, segment, content⟩

theorem readFrom_cons (comment : Text) (segment : Option Segment) (n : Nat) (line : Text)
    (lines : List Text) :
    readFrom comment segment n (line :: lines) =
      (ofLine? comment segment n line).toList ++
        readFrom comment ((marker? comment line).or segment) (n + 1) lines := by
  have hblank : Segment.ofText? [] = none := by decide
  conv_lhs => rw [readFrom]
  unfold ofLine? marker? lineContent
  dsimp only
  by_cases hempty : Text.trim (withoutComment comment line) = []
  · simp [hempty, hblank]
  · rw [if_neg (by simpa using hempty)]
    cases hmarker : Segment.ofText? (Text.trim (withoutComment comment line)) with
    | none => simp [hempty]
    | some entered => simp

theorem ofLine?_eq_some_iff {comment : Text} {segment : Option Segment} {n : Nat} {line : Text}
    {l : SourceLine} :
    ofLine? comment segment n line = some l ↔
      l.number = n ∧ l.segment = segment ∧ l.text = lineContent comment line ∧ l.text ≠ [] ∧
        Segment.ofText? l.text = none := by
  obtain ⟨number, segment', text⟩ := l
  unfold ofLine?
  dsimp only
  by_cases hnone : lineContent comment line = [] ∨
      (Segment.ofText? (lineContent comment line)).isSome
  · rw [if_pos hnone]
    constructor
    · exact nofun
    · rintro ⟨-, -, rfl, hne, hmarker⟩
      simp [hne, hmarker] at hnone
  · rw [if_neg hnone, Option.some.injEq, SourceLine.mk.injEq]
    simp only [not_or, Option.not_isSome_iff_eq_none] at hnone
    constructor
    · rintro ⟨rfl, rfl, rfl⟩
      exact ⟨rfl, rfl, rfl, hnone⟩
    · rintro ⟨rfl, rfl, rfl, -⟩
      exact ⟨rfl, rfl, rfl⟩

/-! ## All lines -/

theorem readFrom_append (comment : Text) (segment : Option Segment) (n : Nat)
    (lines later : List Text) :
    readFrom comment segment n (lines ++ later) =
      readFrom comment segment n lines ++
        readFrom comment (segmentAfter comment segment lines) (n + lines.length) later := by
  induction lines generalizing segment n with
  | nil => rfl
  | cons line lines ih =>
    rw [List.cons_append, readFrom_cons, readFrom_cons, ih, segmentAfter_cons, List.append_assoc,
      List.length_cons, Nat.add_assoc, Nat.add_comm 1]

/-- A source line is a line of the text, in the segment of the last marker before it. -/
theorem mem_readFrom_iff {comment : Text} {segment : Option Segment} {n : Nat} {lines : List Text}
    {l : SourceLine} :
    l ∈ readFrom comment segment n lines ↔
      ∃ k line, lines[k]? = some line ∧
        ofLine? comment (segmentAfter comment segment (lines.take k)) (n + k) line = some l := by
  induction lines generalizing segment n with
  | nil => simp [readFrom]
  | cons line lines ih =>
    rw [readFrom_cons, List.mem_append, Option.mem_toList, ih]
    constructor
    · rintro (h | ⟨k, line', hline', h⟩)
      · exact ⟨0, line, rfl, h⟩
      · refine ⟨k + 1, line', hline', ?_⟩
        rw [List.take_succ_cons, segmentAfter_cons, Nat.add_comm k, ← Nat.add_assoc]
        exact h
    · rintro ⟨k, line', hline', h⟩
      cases k with
      | zero =>
        obtain rfl : line = line' := Option.some.inj hline'
        exact .inl h
      | succ k =>
        rw [List.take_succ_cons, segmentAfter_cons, Nat.add_comm k, ← Nat.add_assoc] at h
        exact .inr ⟨k, line', hline', h⟩

end SourceLine

/-! ## Statements -/

/-- What it is to be a statement of a source text: to stand on one of its lines, inside a section,
and to be neither blank nor a section marker. Lines are counted from one. -/
structure Statement.StandsIn (s : Statement) (comment source : Text) : Prop where
  line_pos : 1 ≤ s.line
  text_eq : (Text.lines source)[s.line - 1]?.map (lineContent comment) = some s.text
  text_ne_nil : s.text ≠ []
  not_marker : Segment.ofText? s.text = none
  /-- The last section marker above the line is that of the segment. -/
  segment_eq : (((Text.lines source).take (s.line - 1)).filterMap (marker? comment)).getLast? =
    some s.segment

theorem mem_statements_iff {comment source : Text} {s : Statement} :
    s ∈ statements comment source ↔ s.StandsIn comment source := by
  obtain ⟨number, segment, text⟩ := s
  unfold statements SourceLine.readAll
  rw [List.mem_filterMap]
  constructor
  · rintro ⟨l, hl, hs⟩
    obtain ⟨k, line, hline, hk⟩ := SourceLine.mem_readFrom_iff.1 hl
    obtain ⟨hnumber, hsegment, htext, hne, hmarker⟩ := SourceLine.ofLine?_eq_some_iff.1 hk
    obtain ⟨segment', hsegment', h⟩ := Option.map_eq_some_iff.1 hs
    obtain ⟨rfl, rfl, rfl⟩ := Statement.mk.inj h
    have hposition : l.number - 1 = k := by omega
    rw [hsegment', segmentAfter, Option.or_none] at hsegment
    refine ⟨?_, ?_, hne, hmarker, ?_⟩
    · show 1 ≤ l.number
      omega
    · show (Text.lines source)[l.number - 1]?.map (lineContent comment) = some l.text
      rw [hposition, hline, htext]
      rfl
    · show (((Text.lines source).take (l.number - 1)).filterMap (marker? comment)).getLast? = _
      rw [hposition, ← hsegment]
  · rintro ⟨hpos, htext, hne, hmarker, hsegment⟩
    dsimp only at hpos htext hne hmarker hsegment
    obtain ⟨line, hline, rfl⟩ := Option.map_eq_some_iff.1 htext
    refine ⟨⟨number, some segment, lineContent comment line⟩, ?_, rfl⟩
    refine SourceLine.mem_readFrom_iff.2 ⟨number - 1, line, hline, ?_⟩
    refine SourceLine.ofLine?_eq_some_iff.2 ⟨?_, ?_, rfl, hne, hmarker⟩
    · show number = 1 + (number - 1)
      omega
    · rw [segmentAfter, Option.or_none, hsegment]

/-- The statements on the first `n` lines. -/
def statementsUpTo (comment source : Text) (n : Nat) : List Statement :=
  (SourceLine.readFrom comment none 1 ((Text.lines source).take n)).filterMap
    SourceLine.statement?

theorem statementsUpTo_congr {comment source source' : Text} {n : Nat}
    (h : (Text.lines source').take n = (Text.lines source).take n) :
    statementsUpTo comment source' n = statementsUpTo comment source n := by
  unfold statementsUpTo
  rw [h]

theorem line_le_of_mem_statementsUpTo {comment source : Text} {n : Nat} {s : Statement}
    (h : s ∈ statementsUpTo comment source n) : s.line ≤ n := by
  obtain ⟨l, hl, hs⟩ := List.mem_filterMap.1 h
  obtain ⟨segment, -, rfl⟩ := Option.map_eq_some_iff.1 hs
  obtain ⟨k, line, hline, hk⟩ := SourceLine.mem_readFrom_iff.1 hl
  have hnumber := (SourceLine.ofLine?_eq_some_iff.1 hk).1
  have hlength := (List.getElem?_eq_some_iff.1 hline).1
  rw [List.length_take] at hlength
  show l.number ≤ n
  omega

theorem statements_eq_append (comment source : Text) (n : Nat) :
    ∃ later, statements comment source = statementsUpTo comment source n ++ later ∧
      ∀ s ∈ later, n < s.line := by
  have hsplit := congrArg (List.filterMap SourceLine.statement?)
    (SourceLine.readFrom_append comment none 1 ((Text.lines source).take n)
      ((Text.lines source).drop n))
  rw [List.take_append_drop, List.filterMap_append] at hsplit
  refine ⟨_, hsplit, fun s hs => ?_⟩
  obtain ⟨l, hl, hs⟩ := List.mem_filterMap.1 hs
  obtain ⟨segment, -, rfl⟩ := Option.map_eq_some_iff.1 hs
  obtain ⟨k, line, hline, hk⟩ := SourceLine.mem_readFrom_iff.1 hl
  have hnumber := (SourceLine.ofLine?_eq_some_iff.1 hk).1
  have hlength := (List.getElem?_eq_some_iff.1 hline).1
  rw [List.length_drop] at hlength
  rw [List.length_take] at hnumber
  show n < l.number
  omega

/-- The statements up to a line are all that the lines up to it say. -/
theorem statementsUpTo_line {comment source : Text} {earlier later : List Statement}
    {s : Statement} (h : statements comment source = earlier ++ s :: later) :
    statementsUpTo comment source s.line = earlier ++ [s] := by
  obtain ⟨rest, hsplit, hrest⟩ := statements_eq_append comment source s.line
  have hlines := pairwise_line comment source
  rw [h, List.pairwise_append, List.pairwise_cons] at hlines
  obtain ⟨-, ⟨hlater, -⟩, hearlier⟩ := hlines
  -- Both sides are the statements whose lines come no later than that of `s`.
  have hup : (statements comment source).filter (fun t => t.line ≤ s.line) =
      statementsUpTo comment source s.line := by
    rw [hsplit, List.filter_append, List.filter_eq_self.2, List.filter_eq_nil_iff.2,
      List.append_nil]
    · intro t ht
      simpa using hrest t ht
    · intro t ht
      simpa using line_le_of_mem_statementsUpTo ht
  rw [← hup, h, List.filter_append, List.filter_cons_of_pos (by simp), List.filter_eq_self.2,
    List.filter_eq_nil_iff.2]
  · intro t ht
    simpa using hlater t ht
  · intro t ht
    simpa using Nat.le_of_lt (hearlier t ht s List.mem_cons_self)

/-- Texts that agree up to the line of a statement have the same statements up to it. -/
theorem exists_statements_of_agree {comment source source' : Text}
    {earlier later : List Statement} {s : Statement}
    (h : statements comment source = earlier ++ s :: later)
    (hagree : (Text.lines source').take s.line = (Text.lines source).take s.line) :
    ∃ later', statements comment source' = earlier ++ s :: later' := by
  obtain ⟨later', hsplit, -⟩ := statements_eq_append comment source' s.line
  rw [statementsUpTo_congr hagree, statementsUpTo_line h, List.append_assoc] at hsplit
  exact ⟨later', hsplit⟩

end BalancedTernary.Assembly
