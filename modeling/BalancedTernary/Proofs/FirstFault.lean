import BalancedTernary.Proofs.SourceLines

/-!
# The first fault

An assembly that fails reports one fault. It is that of the first statement that cannot be read,
whatever comes after it, or else, when all statements can be read, that of the first reference
without a value. First means first in the source text, also where the image has another order.
-/

namespace BalancedTernary

/-- The nine kinds of faults. -/
def FaultKind.all : List FaultKind :=
  [.invalidLabelName, .unknownMnemonic, .wrongOperandCount, .illegalOperands, .destinationMismatch,
   .invalidNumeral, .valueOutOfRange, .undefinedLabel, .duplicateLabel]

theorem FaultKind.mem_all (kind : FaultKind) : kind ∈ all := by
  cases kind <;> decide

namespace Assembly

/-! ## Statements that cannot be read -/

namespace Statement

/-- The label in front of a statement. -/
def label? (s : Statement) : Option Label :=
  match s.split with
  | .ok (label, _) => label
  | .error _ => none

/-- None of the statements `earlier` has the label. -/
def IsFresh (earlier : List Statement) (label : Option Label) : Prop :=
  ∀ l ∈ label, ∀ t ∈ earlier, t.label? ≠ some l

/-- `s` can be read after the statements `earlier`. -/
def Accepted (earlier : List Statement) (s : Statement) : Prop :=
  ∃ label body trytes, s.split = .ok (label, body) ∧ IsFresh earlier label ∧
    s.assemble label body = .ok trytes

/-- Why `s` cannot be read after the statements `earlier`. -/
inductive Rejected (earlier : List Statement) (s : Statement) : Fault → Prop where
  | badLabel {head rest : Text} (hcut : Text.cut? [':'] s.text = some (head, rest))
      (hname : Label.isName (Text.trim head) = false) :
      Rejected earlier s (.labelName (Text.trim head))
  | registerLabel {head rest : Text} (hcut : Text.cut? [':'] s.text = some (head, rest))
      (hname : Label.isName (Text.trim head) = true)
      (hregister : (Register.ofName? (Text.trim head)).isSome) :
      Rejected earlier s (.labelIsRegister (Text.trim head))
  | repeatedLabel {label : Label} {body : Text} (hsplit : s.split = .ok (some label, body))
      {t : Statement} (ht : t ∈ earlier) (hlabel : t.label? = some label) :
      Rejected earlier s (.duplicateLabel label)
  | badBody {label : Option Label} {body : Text} (hsplit : s.split = .ok (label, body))
      (hfresh : IsFresh earlier label) {fault : Fault}
      (hbody : s.assemble label body = .error fault) : Rejected earlier s fault

/-- Each of the statements can be read after `earlier` and those in front of it. -/
def AllAccepted (earlier : List Statement) : List Statement → Prop
  | [] => True
  | s :: rest => s.Accepted earlier ∧ AllAccepted (earlier ++ [s]) rest

theorem label?_of_split {s : Statement} {label : Option Label} {body : Text}
    (h : s.split = .ok (label, body)) : s.label? = label := by
  unfold label?
  rw [h]

theorem split_eq_error_iff {s : Statement} {fault : Fault} :
    s.split = .error fault ↔ ∃ head rest, Text.cut? [':'] s.text = some (head, rest) ∧
      (Label.isName (Text.trim head) = false ∧ fault = .labelName (Text.trim head) ∨
        Label.isName (Text.trim head) = true ∧ (Register.ofName? (Text.trim head)).isSome ∧
          fault = .labelIsRegister (Text.trim head)) := by
  unfold split
  constructor
  · intro h
    split at h
    · exact nomatch h
    · rename_i head rest hcut
      dsimp only at h
      split at h
      · rename_i hname
        exact ⟨head, rest, hcut, .inl ⟨by simpa using hname, (Except.error.inj h).symm⟩⟩
      · rename_i hname
        split at h
        · rename_i hregister
          exact ⟨head, rest, hcut,
            .inr ⟨by simpa using hname, hregister, (Except.error.inj h).symm⟩⟩
        · exact nomatch h
  · rintro ⟨head, rest, hcut, ⟨hname, rfl⟩ | ⟨hname, hregister, rfl⟩⟩
    · simp only [hcut, hname, Bool.not_false, if_true]
    · simp only [hcut, hname, hregister, Bool.not_true, Bool.false_eq_true, if_false, if_true]

end Statement

open Statement

/-! ## One statement -/

/-- The table holds the labels of the statements, and no others. -/
def SymbolTable.Collects (symbols : SymbolTable Nat) (earlier : List Statement) : Prop :=
  ∀ l, (symbols.lookup? l).isSome ↔ ∃ t ∈ earlier, t.label? = some l

section Read

variable {symbols table : SymbolTable Nat} {position : Nat} {earlier : List Statement}
  {s : Statement} {label : Option Label} {body : Text} {f : Fragment} {fault : Fault}

theorem declare_eq_error_iff (h : symbols.Collects earlier) :
    declare symbols position label = .error fault ↔
      ∃ l, label = some l ∧ (∃ t ∈ earlier, t.label? = some l) ∧ fault = .duplicateLabel l := by
  cases label with
  | none => simp [declare]
  | some l =>
    show symbols.define l position = .error fault ↔ _
    unfold SymbolTable.define
    by_cases hl : (symbols.lookup? l).isSome
    · rw [if_pos hl, Except.error.injEq]
      constructor
      · rintro rfl
        exact ⟨l, rfl, (h l).1 hl, rfl⟩
      · rintro ⟨m, hm, -, rfl⟩
        rw [Option.some.inj hm]
    · rw [if_neg hl]
      constructor
      · exact nofun
      · rintro ⟨m, hm, hrepeated, -⟩
        obtain rfl : l = m := Option.some.inj hm
        exact absurd ((h l).2 hrepeated) hl

/-- A label can be declared exactly when it is fresh. -/
theorem exists_declare_iff (h : symbols.Collects earlier) (position : Nat) :
    (∃ table, declare symbols position label = .ok table) ↔ IsFresh earlier label := by
  constructor
  · rintro ⟨table, hdeclare⟩ l hl t ht hlabel
    have hrepeated : declare symbols position label = .error (.duplicateLabel l) :=
      (declare_eq_error_iff h).2 ⟨l, hl, ⟨t, ht, hlabel⟩, rfl⟩
    rw [hdeclare] at hrepeated
    exact nomatch hrepeated
  · intro hfresh
    cases hdeclare : declare symbols position label with
    | ok table => exact ⟨table, rfl⟩
    | error fault =>
      obtain ⟨l, rfl, ⟨t, ht, hlabel⟩, -⟩ := (declare_eq_error_iff h).1 hdeclare
      exact absurd hlabel (hfresh l rfl t ht)

theorem read_of_split_error (hsplit : s.split = .error fault) :
    Fragment.read symbols position s = .error fault := by
  unfold Fragment.read
  rw [hsplit]
  rfl

theorem read_of_split (hsplit : s.split = .ok (label, body)) :
    Fragment.read symbols position s = declare symbols position label >>= fun table =>
      s.encode label body >>= fun f => .ok (table, f) := by
  unfold Fragment.read
  rw [hsplit]
  rfl

theorem encode_eq_error_iff :
    s.encode label body = .error fault ↔ s.assemble label body = .error fault := by
  rw [encode_eq, Outcome.bind_eq_error]
  simp

/-- Reading a statement fails for one of the four reasons, and for no other. -/
theorem read_eq_error_iff (h : symbols.Collects earlier) :
    Fragment.read symbols position s = .error fault ↔ s.Rejected earlier fault := by
  constructor
  · intro hread
    cases hsplit : s.split with
    | error fault' =>
      rw [read_of_split_error hsplit] at hread
      obtain rfl : fault' = fault := Except.error.inj hread
      obtain ⟨head, rest, hcut, ⟨hname, rfl⟩ | ⟨hname, hregister, rfl⟩⟩ :=
        split_eq_error_iff.1 hsplit
      · exact .badLabel hcut hname
      · exact .registerLabel hcut hname hregister
    | ok parts =>
      obtain ⟨label, body⟩ := parts
      rw [read_of_split hsplit] at hread
      obtain hdeclare | ⟨table, hdeclare, hread⟩ := Outcome.bind_eq_error.1 hread
      · obtain ⟨l, rfl, ⟨t, ht, hlabel⟩, rfl⟩ := (declare_eq_error_iff h).1 hdeclare
        exact .repeatedLabel hsplit ht hlabel
      · obtain hencode | ⟨f, -, hread⟩ := Outcome.bind_eq_error.1 hread
        · exact .badBody hsplit ((exists_declare_iff h position).1 ⟨table, hdeclare⟩)
            (encode_eq_error_iff.1 hencode)
        · exact nomatch hread
  · intro hrejected
    cases hrejected with
    | badLabel hcut hname =>
      exact read_of_split_error (split_eq_error_iff.2 ⟨_, _, hcut, .inl ⟨hname, rfl⟩⟩)
    | registerLabel hcut hname hregister =>
      exact read_of_split_error
        (split_eq_error_iff.2 ⟨_, _, hcut, .inr ⟨hname, hregister, rfl⟩⟩)
    | repeatedLabel hsplit ht hlabel =>
      rw [read_of_split hsplit]
      exact Outcome.bind_eq_error.2
        (.inl ((declare_eq_error_iff h).2 ⟨_, rfl, ⟨_, ht, hlabel⟩, rfl⟩))
    | badBody hsplit hfresh hbody =>
      obtain ⟨table, htable⟩ := (exists_declare_iff h position).2 hfresh
      rw [read_of_split hsplit]
      exact Outcome.bind_eq_error.2 (.inr ⟨table, htable,
        Outcome.bind_eq_error.2 (.inl (encode_eq_error_iff.2 hbody))⟩)

theorem exists_read_iff (h : symbols.Collects earlier) (position : Nat) :
    (∃ table f, Fragment.read symbols position s = .ok (table, f)) ↔ s.Accepted earlier := by
  constructor
  · rintro ⟨table, f, hread⟩
    obtain ⟨⟨label, body, hsplit, hencode⟩, hdeclare⟩ := read_eq_ok_iff.1 hread
    obtain ⟨trytes, htrytes, rfl⟩ := encode_eq_ok_iff.1 hencode
    exact ⟨label, body, trytes, hsplit, (exists_declare_iff h position).1 ⟨table, hdeclare⟩,
      htrytes⟩
  · rintro ⟨label, body, trytes, hsplit, hfresh, htrytes⟩
    obtain ⟨table, htable⟩ := (exists_declare_iff h position).2 hfresh
    exact ⟨table, _, read_eq_ok_iff.2
      ⟨⟨label, body, hsplit, encode_eq_ok_iff.2 ⟨trytes, htrytes, rfl⟩⟩, htable⟩⟩

theorem not_rejected_of_accepted (h : symbols.Collects earlier) (haccepted : s.Accepted earlier) :
    ¬ s.Rejected earlier fault := by
  intro hrejected
  obtain ⟨table, f, hread⟩ := (exists_read_iff h 0).2 haccepted
  rw [(read_eq_error_iff h).2 hrejected] at hread
  exact nomatch hread

/-- The label of a statement that is read comes to the table. -/
theorem SymbolTable.Collects.read (h : symbols.Collects earlier)
    (hread : Fragment.read symbols position s = .ok (table, f)) :
    table.Collects (earlier ++ [s]) := by
  obtain ⟨⟨label, body, hsplit, hencode⟩, hdeclare⟩ := read_eq_ok_iff.1 hread
  obtain ⟨trytes, -, rfl⟩ := encode_eq_ok_iff.1 hencode
  have hs : s.label? = label := label?_of_split hsplit
  intro l
  rw [lookup?_of_declare hdeclare]
  by_cases hl : label = some l
  · simp [hl, hs]
  · simp [hl, hs, h l]

end Read

/-! ## All statements -/

section ReadFrom

variable {symbols table : SymbolTable Nat} {position : Nat} {earlier found : List Statement}
  {fragments : List Fragment} {e : LineFault}

/-- Reading ends at the first statement that cannot be read after those in front of it. -/
theorem readFrom_eq_error_iff (h : symbols.Collects earlier) :
    Fragment.readFrom symbols position found = .error e ↔
      ∃ before s after, found = before ++ s :: after ∧ AllAccepted earlier before ∧
        s.Rejected (earlier ++ before) e.fault ∧ s.line = e.line := by
  induction found generalizing symbols position earlier with
  | nil => simp [Fragment.readFrom]
  | cons s found ih =>
    rw [Fragment.readFrom]
    cases hread : Fragment.read symbols position s with
    | error fault =>
      have hs : s.Rejected earlier fault := (read_eq_error_iff h).1 hread
      constructor
      · intro he
        rw [← Except.error.inj he]
        exact ⟨[], s, found, rfl, trivial, by rwa [List.append_nil], rfl⟩
      · rintro ⟨before, t, after, hfound, hbefore, ht, hline⟩
        cases before with
        | nil =>
          obtain ⟨rfl, rfl⟩ := List.cons.inj hfound
          rw [List.append_nil, ← read_eq_error_iff h, hread] at ht
          rw [hline, Except.error.inj ht]
        | cons u before =>
          obtain ⟨rfl, -⟩ := List.cons.inj hfound
          exact absurd hs (not_rejected_of_accepted h hbefore.1)
    | ok parts =>
      obtain ⟨table, f⟩ := parts
      have hs : s.Accepted earlier := (exists_read_iff h position).1 ⟨table, f, hread⟩
      dsimp only
      rw [Outcome.map_eq_error, ih (h.read hread)]
      constructor
      · rintro ⟨before, t, after, rfl, hbefore, ht, hline⟩
        rw [List.append_assoc] at ht
        exact ⟨s :: before, t, after, rfl, ⟨hs, hbefore⟩, ht, hline⟩
      · rintro ⟨before, t, after, hfound, hbefore, ht, hline⟩
        cases before with
        | nil =>
          obtain ⟨rfl, rfl⟩ := List.cons.inj hfound
          rw [List.append_nil] at ht
          exact absurd ht (not_rejected_of_accepted h hs)
        | cons u before =>
          obtain ⟨rfl, rfl⟩ := List.cons.inj hfound
          refine ⟨before, t, after, rfl, hbefore.2, ?_, hline⟩
          rw [List.append_assoc]
          exact ht

theorem allAccepted_of_readFrom (h : symbols.Collects earlier)
    (hread : Fragment.readFrom symbols position found = .ok (table, fragments)) :
    AllAccepted earlier found := by
  induction found generalizing symbols table position earlier fragments with
  | nil => trivial
  | cons s found ih =>
    rw [Fragment.readFrom] at hread
    cases hs : Fragment.read symbols position s with
    | error fault =>
      rw [hs] at hread
      cases hread
    | ok parts =>
      obtain ⟨table', f⟩ := parts
      rw [hs] at hread
      obtain ⟨⟨table'', rest⟩, hrest, -⟩ := Outcome.map_eq_ok.1 hread
      exact ⟨(exists_read_iff h position).1 ⟨table', f, hs⟩, ih (h.read hs) hrest⟩

end ReadFrom

theorem collects_empty : SymbolTable.Collects .empty [] := by
  intro l
  simp [SymbolTable.empty, SymbolTable.lookup?]

/-! ## References without a value -/

/-- The label that a tryte refers to. -/
def Relocatable.label? : Relocatable → Option Label
  | .tryte _ => none
  | .address label => some label
  | .displacement label => some label

/-- Whether a tryte holds the value. -/
def FitsTryte (v : Int64) : Prop := -364 ≤ v.toInt ∧ v.toInt ≤ 364

namespace PlacedFragment

/-- The value of a reference from the fragment `f` to the address `target`. -/
def referenceValue (base : Int64) (f : PlacedFragment) (target : Nat) : Relocatable → Int64
  | .displacement _ => Int64.ofNat target - Int64.ofNat f.stop
  | _ => Int64.ofNat target + base

/-- Why a tryte of the fragment `f` has no value, when `placed` are the fragments of the program:
no fragment has the label, or the one that has it is too far away. -/
inductive Unresolved (placed : List PlacedFragment) (base : Int64) (f : PlacedFragment)
    (slot : Relocatable) : Fault → Prop where
  | undefined {label : Label} (hslot : slot.label? = some label)
      (hlabel : ∀ g ∈ placed, g.label ≠ some label) :
      Unresolved placed base f slot (.undefinedLabel label)
  | tooBig {label : Label} (hslot : slot.label? = some label) {g : PlacedFragment}
      (hg : g ∈ placed) (hlabel : g.label = some label)
      (hbig : ¬ FitsTryte (f.referenceValue base g.address slot)) :
      Unresolved placed base f slot
        (.reference label (.integerTooBig (f.referenceValue base g.address slot) .tryte))

/-- Every tryte of the fragment has a value. -/
def AllResolved (placed : List PlacedFragment) (base : Int64) (f : PlacedFragment)
    (slots : List Relocatable) : Prop :=
  ∀ slot ∈ slots, ∀ fault, ¬ f.Unresolved placed base slot fault

/-- `fault` is that of the first tryte of the fragment that has no value. -/
def FirstUnresolved (placed : List PlacedFragment) (base : Int64) (f : PlacedFragment)
    (fault : Fault) : Prop :=
  ∃ before slot after, f.trytes = before ++ slot :: after ∧ f.AllResolved placed base before ∧
    f.Unresolved placed base slot fault

end PlacedFragment

theorem referenceTryte_eq_error_iff {label : Label} {v : Int64} {fault : Fault} :
    referenceTryte label v = .error fault ↔
      ¬ FitsTryte v ∧ fault = .reference label (.integerTooBig v .tryte) := by
  by_cases hv : FitsTryte v
  · obtain ⟨t, ht⟩ := exists_referenceTryte label hv.1 hv.2
    rw [ht]
    simp [hv]
  · have hrange : ¬(-(3 ^ (6 * 1) : Int) < 2 * v.toInt ∧ 2 * v.toInt < 3 ^ (6 * 1)) := by
      unfold FitsTryte at hv
      omega
    unfold referenceTryte
    rw [Word.ofInt_eq_error (n := 1) rfl (by decide) hrange]
    simp [hv, eq_comm]

section Resolve

variable {fragments : List Fragment} {table : SymbolTable Nat} {base : Int64}
  {f : PlacedFragment} {slot : Relocatable} {fault : Fault}

theorem resolve_of_label? (symbols : Symbols) {label : Label} (h : slot.label? = some label) :
    f.resolve symbols base slot =
      match symbols.address? label with
      | none => .error (.undefinedLabel label)
      | some target => referenceTryte label (f.referenceValue base target slot) := by
  cases slot with
  | tryte t => exact nomatch h
  | address l =>
    rw [← Option.some.inj h]
    rfl
  | displacement l =>
    rw [← Option.some.inj h]
    rfl

variable (htable : declareFrom .empty 0 fragments = .ok table)

include htable

theorem address?_eq_none_iff {l : Label} :
    Symbols.address? ⟨table, place fragments⟩ l = none ↔
      ∀ g ∈ place fragments, g.label ≠ some l := by
  rw [Option.eq_none_iff_forall_ne_some]
  simp only [ne_eq, address?_eq_some_iff htable, not_exists, not_and]
  exact ⟨fun h g hg hl => h g.address g hg hl rfl, fun h a g hg hl => absurd hl (h g hg)⟩

theorem resolve_eq_error_iff :
    f.resolve ⟨table, place fragments⟩ base slot = .error fault ↔
      f.Unresolved (place fragments) base slot fault := by
  constructor
  · intro h
    cases hslot : slot.label? with
    | none =>
      cases slot with
      | tryte t => exact nomatch h
      | address l => exact nomatch hslot
      | displacement l => exact nomatch hslot
    | some label =>
      rw [resolve_of_label? _ hslot] at h
      split at h
      · rename_i hnone
        rw [← Except.error.inj h]
        exact .undefined hslot ((address?_eq_none_iff htable).1 hnone)
      · rename_i target htarget
        obtain ⟨g, hg, hlabel, rfl⟩ := (address?_eq_some_iff htable).1 htarget
        obtain ⟨hbig, rfl⟩ := referenceTryte_eq_error_iff.1 h
        exact .tooBig hslot hg hlabel hbig
  · intro h
    cases h with
    | undefined hslot hlabel =>
      rw [resolve_of_label? _ hslot, (address?_eq_none_iff htable).2 hlabel]
    | tooBig hslot hg hlabel hbig =>
      rw [resolve_of_label? _ hslot, (address?_eq_some_iff htable).2 ⟨_, hg, hlabel, rfl⟩]
      exact referenceTryte_eq_error_iff.2 ⟨hbig, rfl⟩

theorem allResolved_iff {slots : List Relocatable} :
    f.AllResolved (place fragments) base slots ↔
      ∀ slot ∈ slots, ∃ t, f.resolve ⟨table, place fragments⟩ base slot = .ok t := by
  refine forall₂_congr fun slot _ => ?_
  simp only [← resolve_eq_error_iff htable]
  cases f.resolve ⟨table, place fragments⟩ base slot <;> simp

/-- Linking a fragment fails with its first tryte that has no value. -/
theorem fragment_link_eq_error_iff {e : LineFault} :
    f.link ⟨table, place fragments⟩ base = .error e ↔
      f.FirstUnresolved (place fragments) base e.fault ∧ f.line = e.line := by
  have hfirst : f.FirstUnresolved (place fragments) base e.fault ↔
      f.trytes.mapM (f.resolve ⟨table, place fragments⟩ base) = .error e.fault := by
    unfold PlacedFragment.FirstUnresolved
    simp only [Outcome.mapM_eq_error, allResolved_iff htable, resolve_eq_error_iff htable]
  rw [hfirst]
  unfold PlacedFragment.link
  cases f.trytes.mapM (f.resolve ⟨table, place fragments⟩ base) with
  | ok code => simp
  | error fault =>
    obtain ⟨line, fault'⟩ := e
    simp [and_comm]

theorem exists_fragment_link_iff :
    (∃ l, f.link ⟨table, place fragments⟩ base = .ok l) ↔
      f.AllResolved (place fragments) base f.trytes := by
  constructor
  · rintro ⟨l, hl⟩
    obtain ⟨-, hcode⟩ := PlacedFragment.link_eq_ok_iff.1 hl
    rw [allResolved_iff htable]
    intro slot hslot
    obtain ⟨t, -, ht⟩ := Outcome.exists_of_mem_left hcode hslot
    exact ⟨t, ht⟩
  · intro h
    cases hl : f.link ⟨table, place fragments⟩ base with
    | ok l => exact ⟨l, rfl⟩
    | error e =>
      obtain ⟨⟨before, slot, after, htrytes, -, hslot⟩, -⟩ :=
        (fragment_link_eq_error_iff htable).1 hl
      exact absurd hslot (h slot (by simp [htrytes]) _)

/-- Linking fails with the first fragment, in the order of the source text, that has a tryte
without a value. -/
theorem link_eq_error_iff {e : LineFault} :
    link base table fragments = .error e ↔
      ∃ earlier f later, place fragments = earlier ++ f :: later ∧
        (∀ g ∈ earlier, g.AllResolved (place fragments) base g.trytes) ∧
        f.FirstUnresolved (place fragments) base e.fault ∧ f.line = e.line := by
  have hlink : link base table fragments = .error e ↔
      (place fragments).mapM (PlacedFragment.link ⟨table, place fragments⟩ base) = .error e := by
    unfold link
    rw [Outcome.bind_eq_error]
    exact or_iff_left fun ⟨_, _, h⟩ => nomatch h
  simp only [hlink, Outcome.mapM_eq_error, exists_fragment_link_iff htable,
    fragment_link_eq_error_iff htable]

end Resolve

/-! ## Programs -/

/-- `s` is the first statement that cannot be read, because of `fault`. -/
def StopsReading (comment source : Text) (s : Statement) (fault : Fault) : Prop :=
  ∃ earlier later, statements comment source = earlier ++ s :: later ∧ AllAccepted [] earlier ∧
    s.Rejected earlier fault

/-- All statements can be read, and the fragment of `s` is the first one, in the order of the source
text, that has a tryte without a value. The first such tryte has the fault. -/
def StopsLinking (config : Config) (source : Text) (s : Statement) (fault : Fault) : Prop :=
  AllAccepted [] (statements config.comment source) ∧
    ∃ fragments earlier f later,
      List.Forall₂ Statement.Yields (statements config.comment source) fragments ∧
      place fragments = earlier ++ f :: later ∧ s.Yields f.toFragment ∧
      (∀ g ∈ earlier, g.AllResolved (place fragments) config.base g.trytes) ∧
      f.FirstUnresolved (place fragments) config.base fault

section Assemble

variable {config : Config} {source : Text} {e : LineFault}

theorem readAll_eq_error_iff :
    Fragment.readAll (statements config.comment source) = .error e ↔
      ∃ s, StopsReading config.comment source s e.fault ∧ s.line = e.line := by
  unfold Fragment.readAll StopsReading
  rw [readFrom_eq_error_iff collects_empty]
  simp only [List.nil_append]
  constructor
  · rintro ⟨earlier, s, later, hfound, hearlier, hs, hline⟩
    exact ⟨s, ⟨earlier, later, hfound, hearlier, hs⟩, hline⟩
  · rintro ⟨s, ⟨earlier, later, hfound, hearlier, hs⟩, hline⟩
    exact ⟨earlier, s, later, hfound, hearlier, hs, hline⟩

theorem assemble_of_stopsReading {s : Statement} {fault : Fault}
    (h : StopsReading config.comment source s fault) :
    assemble config source = .error ⟨s.line, fault⟩ :=
  Outcome.bind_eq_error.2 (.inl (readAll_eq_error_iff.2 ⟨s, h, rfl⟩))

theorem StopsReading.mem {comment : Text} {s : Statement} {fault : Fault}
    (h : StopsReading comment source s fault) : s ∈ statements comment source := by
  obtain ⟨earlier, later, hfound, -⟩ := h
  simp [hfound]

/-- What comes after the line has no part in the fault. -/
theorem StopsReading.of_agree {comment source' : Text} {s : Statement} {fault : Fault}
    (h : StopsReading comment source s fault)
    (hagree : (Text.lines source').take s.line = (Text.lines source).take s.line) :
    StopsReading comment source' s fault := by
  obtain ⟨earlier, later, hfound, hs⟩ := h
  obtain ⟨later', hfound'⟩ := exists_statements_of_agree hfound hagree
  exact ⟨earlier, later', hfound', hs⟩

theorem exists_stops_of_assemble (h : assemble config source = .error e) :
    ∃ s ∈ statements config.comment source, s.line = e.line ∧
      (StopsReading config.comment source s e.fault ∨ StopsLinking config source s e.fault) := by
  obtain hread | ⟨⟨table, fragments⟩, hread, hlink⟩ := Outcome.bind_eq_error.1 h
  · obtain ⟨s, hs, hline⟩ := readAll_eq_error_iff.1 hread
    exact ⟨s, hs.mem, hline, .inl hs⟩
  · obtain ⟨hyields, htable⟩ := readFrom_eq_ok_iff.1 hread
    obtain ⟨earlier, f, later, hplaced, hearlier, hf, hline⟩ := (link_eq_error_iff htable).1 hlink
    have hfragment : f.toFragment ∈ fragments := by
      rw [← toFragment_place fragments, hplaced]
      simp
    obtain ⟨s, hmem, hs⟩ := Outcome.exists_of_mem_right hyields hfragment
    exact ⟨s, hmem, hs.line_eq.symm.trans hline, .inr
      ⟨allAccepted_of_readFrom collects_empty hread, fragments, earlier, f, later, hyields, hplaced,
        hs, hearlier, hf⟩⟩

end Assemble

/-- `e` is the first fault of a source text. It is on the line of a statement. Either the statement
is the first that cannot be read, and then every text that agrees up to the line has the same fault;
or all statements can be read, and that one has the first reference without a value. -/
def FirstFault (config : Config) (source : Text) (e : LineFault) : Prop :=
  ∃ s : Statement, s.StandsIn config.comment source ∧ s.line = e.line ∧
    (StopsReading config.comment source s e.fault ∧
        (∀ source', (Text.lines source').take e.line = (Text.lines source).take e.line →
          assemble config source' = .error e) ∨
      StopsLinking config source s e.fault)

/-- An assembly that fails reports the first fault, which is of one of the nine kinds. -/
theorem assemble_first_fault {config : Config} {source : Text} {e : LineFault}
    (h : assemble config source = .error e) :
    e.fault.kind ∈ FaultKind.all ∧ FirstFault config source e := by
  obtain ⟨s, hmem, hline, hstops⟩ := exists_stops_of_assemble h
  refine ⟨e.fault.kind.mem_all, s, mem_statements_iff.1 hmem, hline, ?_⟩
  rcases hstops with hreading | hlinking
  · refine .inl ⟨hreading, fun source' hagree => ?_⟩
    rw [← hline] at hagree
    rw [assemble_of_stopsReading (hreading.of_agree hagree), hline]
  · exact .inr hlinking

/-- An undefined label, then a label that is defined again, then an unknown mnemonic. -/
def unreadable : Text :=
  ".data\ntryte nowhere ; not yet a fault\n.code\n\na: jmp a\na: restart\nb: jmq a".toList

/-- Undefined labels in both segments, in the data first. -/
def unlinkable : Text := ".data\ntryte nowhere\n.code\njmp elsewhere".toList

theorem unreadable_unlinkable_first_faults :
    (assemble .default unreadable = .error ⟨6, .duplicateLabel ['a']⟩ ∧
      FirstFault .default unreadable ⟨6, .duplicateLabel ['a']⟩) ∧
    assemble .default unlinkable = .error ⟨2, .undefinedLabel "nowhere".toList⟩ ∧
      FirstFault .default unlinkable ⟨2, .undefinedLabel "nowhere".toList⟩ := by
  have hread : (assemble .default unreadable).map (·.image) =
      .error ⟨6, .duplicateLabel ['a']⟩ := by
    decide +kernel
  have hlink : (assemble .default unlinkable).map (·.image) =
      .error ⟨2, .undefinedLabel "nowhere".toList⟩ := by
    decide +kernel
  rw [Outcome.map_eq_error] at hread hlink
  exact ⟨⟨hread, (assemble_first_fault hread).2⟩, hlink, (assemble_first_fault hlink).2⟩

end Assembly

end BalancedTernary
