import BalancedTernary.Assembly.Event
import BalancedTernary.Proofs.LineNumbers
import BalancedTernary.Proofs.SourceLines
import BalancedTernary.Proofs.Text
import Mathlib.Logic.Relation

/-!
# Edits that keep a program

Blank lines, comments and white space at either end of a line have no part in a program, and neither
have carriage returns at the ends of lines. So a source text can be laid out anew, by any number of
such edits, and still assembles to the same image, or fails in the same way.
-/

namespace BalancedTernary

namespace Text

/-! ## Ends of lines -/

/-- `t` is `s` with carriage returns in front of some of its line feeds. -/
inductive Returned : Text → Text → Prop where
  | nil : Returned [] []
  | cons (c : Char) {s t : Text} : Returned s t → Returned (c :: s) (c :: t)
  | lineFeed {s t : Text} : Returned s t → Returned ('\n' :: s) ('\r' :: '\n' :: t)

/-- `s` with a carriage return in front of every line feed. -/
def withReturns (s : Text) : Text := s.flatMap fun c => if c = '\n' then ['\r', '\n'] else [c]

theorem returned_unifyLineEnds (s : Text) : Returned (unifyLineEnds s) s := by
  fun_induction unifyLineEnds s with
  | case1 s ih => exact .lineFeed ih
  | case2 c s _ ih => exact .cons c ih
  | case3 => exact .nil

theorem returned_withReturns (s : Text) : Returned s (withReturns s) := by
  induction s with
  | nil => exact .nil
  | cons c s ih =>
    by_cases hc : c = '\n'
    · subst hc
      exact .lineFeed ih
    · rw [withReturns, List.flatMap_cons, if_neg hc]
      exact .cons c ih

/-- The lines are the same, up to a carriage return at the end. -/
theorem Returned.forall₂_splitOn {s t : Text} (h : Returned s t) :
    List.Forall₂ (fun l m => m = l ∨ m = l ++ ['\r']) (s.splitOn '\n') (t.splitOn '\n') := by
  induction h with
  | nil => exact .cons (.inl rfl) .nil
  | @cons c s t _ ih =>
    rw [List.splitOn_cons_eq_if_modifyHead, List.splitOn_cons_eq_if_modifyHead]
    split
    · exact .cons (.inl rfl) ih
    · match hs : s.splitOn '\n', ht : t.splitOn '\n', ih with
      | [], _, _ => exact absurd hs (List.splitOn_ne_nil _ _)
      | l :: ls, m :: ms, .cons hlm hrest =>
        exact .cons (hlm.imp (congrArg (c :: ·)) (congrArg (c :: ·))) hrest
  | lineFeed _ ih => exact .cons (.inr rfl) ih

/-- What comes after `s` is at the start of a line. -/
def StartsLine (s : Text) : Prop := s = [] ∨ ∃ t, s = t ++ ['\n']

/-- What comes before `s` is at the end of a line. -/
def EndsLine (s : Text) : Prop := s = [] ∨ ∃ t, s = '\n' :: t ∨ s = '\r' :: '\n' :: t

/-- The two ways to end a line. -/
def IsLineEnd (e : Text) : Prop := e = ['\n'] ∨ e = ['\r', '\n']

theorem IsLineEnd.endsLine {e : Text} (h : IsLineEnd e) (s : Text) : EndsLine (e ++ s) := by
  rcases h with rfl | rfl
  · exact .inr ⟨s, .inl rfl⟩
  · exact .inr ⟨s, .inr rfl⟩

theorem splitOn_of_startsLine {s : Text} (h : StartsLine s) (t : Text) :
    (s ++ t).splitOn '\n' = (s.splitOn '\n').dropLast ++ t.splitOn '\n' := by
  rcases h with rfl | ⟨s, rfl⟩
  · rfl
  · rw [List.append_assoc, List.singleton_append, List.splitOn_append_cons_self,
      List.splitOn_append_cons_self, List.splitOn_nil, List.dropLast_concat]

/-! ## White space and marks -/

/-- White space within a line. -/
def IsGap (b : Text) : Prop := (∀ c ∈ b, isBlank c = true) ∧ '\n' ∉ b

theorem blank_return : ∀ c ∈ ['\r'], isBlank c = true := List.forall_mem_singleton.2 (by decide)

theorem trim_append_right {b : Text} (hb : ∀ c ∈ b, isBlank c = true) (s : Text) :
    trim (s ++ b) = trim s := by
  unfold trim
  rw [List.dropWhile_append]
  split
  · -- There is nothing but white space.
    rename_i hempty
    have hblank : b.dropWhile isBlank = [] := by
      rw [← List.append_nil b, List.dropWhile_append_of_pos hb, List.dropWhile_nil]
    rw [List.isEmpty_iff.1 hempty, hblank]
  · unfold trimEndBy
    rw [List.reverse_append, List.dropWhile_append_of_pos fun c hc => hb c (List.mem_reverse.1 hc)]

/-- What comes after the first mark does not count. -/
theorem before_append_cons (mark : Char) (s t : Text) :
    before [mark] (s ++ mark :: t) = before [mark] s := by
  by_cases h : mark ∈ s
  · obtain ⟨u, v, rfl, hu⟩ := List.eq_append_cons_of_mem h
    rw [List.append_assoc, List.cons_append]
    unfold before
    rw [cut?_append_cons hu, cut?_append_cons hu]
  · rw [before_of_notMem h]
    unfold before
    rw [cut?_append_cons h]

theorem before_append {mark : Char} {b : Text} (hb : mark ∉ b) (s : Text) :
    before [mark] (b ++ s) = b ++ before [mark] s := by
  by_cases h : mark ∈ s
  · obtain ⟨u, v, rfl, hu⟩ := List.eq_append_cons_of_mem h
    rw [← List.append_assoc, before_append_cons, before_append_cons, before_of_notMem hu,
      before_of_notMem (by simp [hb, hu])]
  · rw [before_of_notMem h, before_of_notMem (by simp [hb, h])]

end Text

namespace Assembly

open Text

/-! ## The contents of lines -/

section Contents

variable {mark : Char} (hmark : isBlank mark = false)

theorem lineContent_append_comment (l t : Text) :
    lineContent [mark] (l ++ mark :: t) = lineContent [mark] l := by
  rw [lineContent_singleton, lineContent_singleton, before_append_cons]

include hmark

theorem not_mem_of_blank {b : Text} (hb : ∀ c ∈ b, isBlank c = true) : mark ∉ b := by
  intro h
  rw [hb mark h] at hmark
  exact nomatch hmark

theorem lineContent_blanks_append {b : Text} (hb : ∀ c ∈ b, isBlank c = true) (l : Text) :
    lineContent [mark] (b ++ l) = lineContent [mark] l := by
  rw [lineContent_singleton, lineContent_singleton, before_append (not_mem_of_blank hmark hb),
    trim_append hb]

theorem lineContent_append_blanks {b : Text} (hb : ∀ c ∈ b, isBlank c = true) (l : Text) :
    lineContent [mark] (l ++ b) = lineContent [mark] l := by
  by_cases h : mark ∈ l
  · -- The white space is in the comment.
    obtain ⟨u, v, rfl, -⟩ := List.eq_append_cons_of_mem h
    rw [List.append_assoc, List.cons_append, lineContent_append_comment, lineContent_append_comment]
  · rw [lineContent_singleton, lineContent_singleton, before_append h, before_of_notMem h,
      before_of_notMem (not_mem_of_blank hmark hb), trim_append_right hb]

/-- Carriage returns at the ends of lines are white space there. -/
theorem map_lineContent_of_returned {s t : Text} (h : Returned s t) :
    (s.splitOn '\n').map (lineContent [mark]) = (t.splitOn '\n').map (lineContent [mark]) := by
  apply Outcome.map_eq_map_of_forall₂
  refine h.forall₂_splitOn.imp fun l m hlm => ?_
  rcases hlm with rfl | rfl
  · rfl
  · exact (lineContent_append_blanks hmark blank_return l).symm

end Contents

/-- What the lines of a source text say. -/
def lineContents (comment source : Text) : List Text :=
  (Text.lines source).map (lineContent comment)

section Lines

variable {mark : Char} (hmark : isBlank mark = false)

include hmark

theorem lineContents_eq (source : Text) :
    lineContents [mark] source = (source.splitOn '\n').map (lineContent [mark]) :=
  map_lineContent_of_returned hmark (returned_unifyLineEnds source)

theorem lineContents_withReturns (source : Text) :
    lineContents [mark] (withReturns source) = lineContents [mark] source := by
  rw [lineContents_eq hmark, lineContents_eq hmark]
  exact (map_lineContent_of_returned hmark (returned_withReturns source)).symm

theorem lineContents_append {before : Text} (h : StartsLine before) (rest : Text) :
    lineContents [mark] (before ++ rest) =
      (lineContents [mark] before).dropLast ++ lineContents [mark] rest := by
  rw [lineContents_eq hmark, lineContents_eq hmark, lineContents_eq hmark,
    splitOn_of_startsLine h, List.map_append, List.map_dropLast]

theorem lineContents_lineFeed (line : Text) (hline : '\n' ∉ line) (rest : Text) :
    lineContents [mark] (line ++ '\n' :: rest) =
      lineContent [mark] line :: lineContents [mark] rest := by
  rw [lineContents_eq hmark, lineContents_eq hmark, List.splitOn_append_cons_self,
    List.splitOn_eq_singleton hline]
  rfl

/-- Nothing of a line is left after its end. -/
theorem lineContents_lineEnd_append {e : Text} (h : IsLineEnd e) (rest : Text) :
    (lineContents [mark] (e ++ rest)).tail = lineContents [mark] rest := by
  rcases h with rfl | rfl
  · exact congrArg List.tail (lineContents_lineFeed hmark [] (by decide) rest)
  · exact congrArg List.tail (lineContents_lineFeed hmark ['\r'] (by decide) rest)

theorem lineContents_line_append {line after : Text} (hline : '\n' ∉ line) (h : EndsLine after) :
    lineContents [mark] (line ++ after) =
      lineContent [mark] line :: (lineContents [mark] after).tail := by
  rcases h with rfl | ⟨t, rfl | rfl⟩
  · rw [List.append_nil, lineContents_eq hmark, lineContents_eq hmark,
      List.splitOn_eq_singleton hline]
    rfl
  · rw [lineContents_lineFeed hmark line hline]
    exact congrArg _ (lineContents_lineEnd_append hmark (.inl rfl) t).symm
  · -- The carriage return stands at the end of the line.
    have hreturn : '\n' ∉ line ++ ['\r'] := by simp [hline]
    rw [List.append_cons, lineContents_lineFeed hmark _ hreturn,
      lineContent_append_blanks hmark blank_return]
    exact congrArg _ (lineContents_lineEnd_append hmark (.inr rfl) t).symm

end Lines

/-! ## Edits -/

/-- The line says nothing: it is blank, or only a comment. -/
def IsIdle (mark : Char) (line : Text) : Prop :=
  '\n' ∉ line ∧ ∃ b, (∀ c ∈ b, isBlank c = true) ∧ (line = b ∨ ∃ t, line = b ++ mark :: t)

/-- `line` is a whole line between `before` and `after`. -/
structure IsLine (before line after : Text) : Prop where
  start : StartsLine before
  line : '\n' ∉ line
  stop : EndsLine after

/-- One edit of the layout of a source text, when `mark` starts a comment. -/
inductive Edit (mark : Char) : Text → Text → Prop where
  /-- An idle line comes in front of another line. -/
  | lineBefore {before idle e : Text} (after : Text) : StartsLine before → IsIdle mark idle →
      IsLineEnd e → Edit mark (before ++ after) (before ++ (idle ++ (e ++ after)))
  /-- An idle line comes after another line, which may be the last one. -/
  | lineAfter {before line after idle e : Text} : IsLine before line after → IsIdle mark idle →
      IsLineEnd e →
      Edit mark (before ++ (line ++ after)) (before ++ (line ++ (e ++ (idle ++ after))))
  | comment {before line after t : Text} : IsLine before line after → '\n' ∉ t →
      Edit mark (before ++ (line ++ after)) (before ++ ((line ++ mark :: t) ++ after))
  | gapBefore {before line after b : Text} : IsLine before line after → IsGap b →
      Edit mark (before ++ (line ++ after)) (before ++ ((b ++ line) ++ after))
  | gapAfter {before line after b : Text} : IsLine before line after → IsGap b →
      Edit mark (before ++ (line ++ after)) (before ++ ((line ++ b) ++ after))

/-- What the lines say that are not idle. -/
def saidLines (comment source : Text) : List Text :=
  (lineContents comment source).filter (· ≠ [])

section Edits

variable {mark : Char} (hmark : isBlank mark = false)

include hmark

theorem IsIdle.lineContent_eq {line : Text} (h : IsIdle mark line) :
    lineContent [mark] line = [] := by
  obtain ⟨-, b, hb, hline⟩ := h
  have hblank : lineContent [mark] b = [] := by
    rw [← List.append_nil b, lineContent_blanks_append hmark hb]
    rfl
  rcases hline with rfl | ⟨t, rfl⟩
  · exact hblank
  · rw [lineContent_append_comment, hblank]

theorem IsLine.lineContents_eq {before line after : Text} (h : IsLine before line after) :
    lineContents [mark] (before ++ (line ++ after)) = (lineContents [mark] before).dropLast ++
      lineContent [mark] line :: (lineContents [mark] after).tail := by
  rw [lineContents_append hmark h.start, lineContents_line_append hmark h.line h.stop]

theorem saidLines_of_replace {before line line' after : Text} (h : IsLine before line after)
    (hline' : '\n' ∉ line') (hcontent : lineContent [mark] line' = lineContent [mark] line) :
    saidLines [mark] (before ++ (line ++ after)) =
      saidLines [mark] (before ++ (line' ++ after)) := by
  have h' : IsLine before line' after := ⟨h.start, hline', h.stop⟩
  unfold saidLines
  rw [h.lineContents_eq hmark, h'.lineContents_eq hmark, hcontent]

theorem Edit.saidLines_eq {source source' : Text} (h : Edit mark source source') :
    saidLines [mark] source = saidLines [mark] source' := by
  cases h with
  | @lineBefore before idle e after hbefore hidle he =>
    have hline : IsLine before idle (e ++ after) := ⟨hbefore, hidle.1, he.endsLine after⟩
    unfold saidLines
    rw [hline.lineContents_eq hmark, hidle.lineContent_eq hmark,
      lineContents_lineEnd_append hmark he, lineContents_append hmark hbefore]
    simp
  | @lineAfter before line after idle e hline hidle he =>
    have hnext : IsLine before line (e ++ (idle ++ after)) :=
      ⟨hline.start, hline.line, he.endsLine _⟩
    unfold saidLines
    rw [hline.lineContents_eq hmark, hnext.lineContents_eq hmark,
      lineContents_lineEnd_append hmark he, lineContents_line_append hmark hidle.1 hline.stop,
      hidle.lineContent_eq hmark]
    simp [List.filter_cons]
  | @comment before line after t hline ht =>
    refine saidLines_of_replace hmark hline ?_ (lineContent_append_comment line t)
    have hfeed : mark ≠ '\n' := by
      rintro rfl
      exact absurd hmark (by decide)
    simp [hline.line, ht, Ne.symm hfeed]
  | @gapBefore before line after b hline hb =>
    refine saidLines_of_replace hmark hline ?_ (lineContent_blanks_append hmark hb.1 line)
    simp [hline.line, hb.2]
  | @gapAfter before line after b hline hb =>
    refine saidLines_of_replace hmark hline ?_ (lineContent_append_blanks hmark hb.1 line)
    simp [hline.line, hb.2]

end Edits

/-! ## Statements -/

def SourceLine.unnumbered (l : SourceLine) : SourceLine := { l with number := 0 }

section Statements

variable {comment : Text} {source source' : Text}

/-- A line counts for what it says. -/
theorem readFrom_congr {lines lines' : List Text}
    (h : lines.map (lineContent comment) = lines'.map (lineContent comment))
    (segment : Option Segment) (n : Nat) :
    SourceLine.readFrom comment segment n lines = SourceLine.readFrom comment segment n lines' := by
  induction Outcome.forall₂_of_map_eq h generalizing segment n with
  | nil => rfl
  | @cons line line' lines lines' hline hrest ih =>
    rw [SourceLine.readFrom_cons, SourceLine.readFrom_cons]
    unfold SourceLine.ofLine? marker?
    rw [hline, ih (Outcome.map_eq_map_of_forall₂ hrest)]

theorem readAll_of_lineContents_eq
    (h : lineContents comment source = lineContents comment source') :
    SourceLine.readAll comment source = SourceLine.readAll comment source' :=
  readFrom_congr h none 1

/-- Idle lines only move the others down. -/
theorem readFrom_unnumbered_filter (segment : Option Segment) (n m : Nat) (lines : List Text) :
    (SourceLine.readFrom comment segment n lines).map SourceLine.unnumbered =
      (SourceLine.readFrom comment segment m
        (lines.filter fun line => lineContent comment line ≠ [])).map SourceLine.unnumbered := by
  induction lines generalizing segment n m with
  | nil => rfl
  | cons line lines ih =>
    rw [SourceLine.readFrom_cons]
    by_cases hidle : lineContent comment line = []
    · have hmarker : marker? comment line = none := by
        unfold marker?
        rw [hidle]
        decide
      have hnone : SourceLine.ofLine? comment segment n line = none := by
        unfold SourceLine.ofLine?
        rw [hidle, if_pos (.inl rfl)]
      rw [List.filter_cons_of_neg (by simpa using hidle), hmarker, hnone]
      exact ih segment (n + 1) m
    · have hline : (SourceLine.ofLine? comment segment n line).map SourceLine.unnumbered =
          (SourceLine.ofLine? comment segment m line).map SourceLine.unnumbered := by
        unfold SourceLine.ofLine?
        dsimp only
        split <;> rfl
      rw [List.filter_cons_of_pos (by simpa using hidle), SourceLine.readFrom_cons, List.map_append,
        List.map_append, ← Option.toList_map, ← Option.toList_map, hline, ih _ (n + 1) (m + 1)]

/-- The lines that say something decide on the statements, apart from their numbers. -/
theorem statements_of_saidLines_eq (h : saidLines comment source = saidLines comment source') :
    (statements comment source).map Statement.unnumbered =
      (statements comment source').map Statement.unnumbered := by
  have hstatement (l : SourceLine) :
      l.statement?.map Statement.unnumbered = l.unnumbered.statement? := by
    obtain ⟨number, segment, text⟩ := l
    cases segment <;> rfl
  unfold saidLines lineContents at h
  rw [List.filter_map, List.filter_map] at h
  have hlines : (SourceLine.readAll comment source).map SourceLine.unnumbered =
      (SourceLine.readAll comment source').map SourceLine.unnumbered := by
    unfold SourceLine.readAll
    rw [readFrom_unnumbered_filter none 1 1, readFrom_unnumbered_filter none 1 1 (lines source')]
    exact congrArg (List.map SourceLine.unnumbered) (readFrom_congr h none 1)
  unfold statements
  rw [List.map_filterMap, List.map_filterMap]
  simp only [hstatement]
  simpa only [List.filterMap_map, Function.comp_def] using
    congrArg (List.filterMap SourceLine.statement?) hlines

end Statements

/-- The layout of a source text has no part in its program. Any number of edits leaves the outcome
of an assembly as it is, apart from line numbers: the image and the addresses of the symbols, or the
kind of the fault. Carriage returns at the ends of all lines leave also the line numbers. -/
theorem assemble_of_layout_edits (mark : Char) (hmark : isBlank mark = false) (base : Int64) :
    (∀ source source', Relation.ReflTransGen (Edit mark) source source' →
      summary (assemble ⟨[mark], base⟩ source') = summary (assemble ⟨[mark], base⟩ source)) ∧
    ∀ source, assemble ⟨[mark], base⟩ (withReturns source) = assemble ⟨[mark], base⟩ source ∧
      trace ⟨[mark], base⟩ (withReturns source) = trace ⟨[mark], base⟩ source := by
  constructor
  · intro source source' hedits
    have hsaid : saidLines [mark] source' = saidLines [mark] source := by
      induction hedits with
      | refl => rfl
      | tail _ hedit ih => exact (hedit.saidLines_eq hmark).symm.trans ih
    have hresult := assemble_unnumbered ⟨[mark], base⟩ (statements_of_saidLines_eq hsaid)
    rw [← summary_unnumber, hresult, summary_unnumber]
  · intro source
    have hlines := readAll_of_lineContents_eq (lineContents_withReturns hmark source)
    unfold assemble trace statements
    dsimp only
    rw [hlines]
    exact ⟨rfl, rfl⟩

/-- A loop, and its address as data. -/
def tightLoop : Text := ".code\nx: jmp x\n.data\npair x".toList

/-- `tightLoop` with a line of comment, an indented line and a comment after it. -/
def looseLoop : Text := "# loop\r\n.code\n\tx: jmp x# again\n.data\npair x".toList

theorem looseLoop_of_edits : Relation.ReflTransGen (Edit '#') tightLoop looseLoop := by
  have hidle : IsIdle '#' "# loop".toList :=
    ⟨by decide, [], nofun, .inr ⟨" loop".toList, by decide⟩⟩
  have hline : IsLine "# loop\r\n.code\n".toList "x: jmp x".toList "\n.data\npair x".toList :=
    ⟨.inr ⟨"# loop\r\n.code".toList, by decide⟩, by decide, .inr ⟨".data\npair x".toList, .inl rfl⟩⟩
  have hindented : IsLine "# loop\r\n.code\n".toList ("\t".toList ++ "x: jmp x".toList)
      "\n.data\npair x".toList := ⟨hline.start, by decide, hline.stop⟩
  have hfirst := Edit.lineBefore tightLoop (.inl rfl) hidle (.inr rfl)
  have hsecond : Edit '#' _ _ :=
    .gapBefore hline (b := ['\t']) ⟨List.forall_mem_singleton.2 (by decide), by decide⟩
  have hthird : Edit '#' _ _ := .comment hindented (t := " again".toList) (by decide)
  exact .tail (.tail (.single hfirst) hsecond) hthird

theorem tightLoop_looseLoop_assemble :
    ∃ p q, assemble ⟨['#'], 0⟩ tightLoop = .ok p ∧ assemble ⟨['#'], 0⟩ looseLoop = .ok q ∧
      q.image = p.image ∧ q.symbolAddresses = p.symbolAddresses ∧
      assemble ⟨['#'], 0⟩ (withReturns looseLoop) = .ok q := by
  obtain ⟨hedits, hreturns⟩ := assemble_of_layout_edits '#' (by decide) 0
  have htight : (assemble ⟨['#'], 0⟩ tightLoop).map (·.size) = .ok 6 := by decide +kernel
  obtain ⟨p, hp, -⟩ := Outcome.map_eq_ok.1 htight
  have hsummary := hedits tightLoop looseLoop looseLoop_of_edits
  rw [hp] at hsummary
  cases hq : assemble ⟨['#'], 0⟩ looseLoop with
  | error e =>
    rw [hq] at hsummary
    exact nomatch hsummary
  | ok q =>
    rw [hq] at hsummary
    obtain ⟨himage, hsymbols⟩ := Prod.mk.inj (Except.ok.inj hsummary)
    exact ⟨p, q, hp, rfl, himage, hsymbols, (hreturns looseLoop).1.trans hq⟩

end Assembly

end BalancedTernary
