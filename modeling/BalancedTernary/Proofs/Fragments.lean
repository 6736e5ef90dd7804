import BalancedTernary.Assembly.Layout
import BalancedTernary.Proofs.Outcome

/-!
# Fragments of a source text

Statements are read one by one, and their labels are collected on the way. The two do not depend on
each other: reading succeeds exactly when each statement has a fragment and no label is defined
twice, and then each label stands for the position of its fragment.
-/

namespace BalancedTernary.Assembly

/-! ## Symbol tables -/

namespace SymbolTable

variable {table table' : SymbolTable Nat} {label : Label} {position : Nat}

theorem define_of_fresh (h : table.lookup? label = none) :
    table.define label position = .ok ⟨(label, position) :: table.entries⟩ := by
  unfold define
  rw [h]
  rfl

theorem fresh_of_define (h : table.define label position = .ok table') :
    table.lookup? label = none ∧ table' = ⟨(label, position) :: table.entries⟩ := by
  unfold define at h
  split at h
  · exact nomatch h
  · rename_i hnone
    exact ⟨Option.not_isSome_iff_eq_none.1 hnone, (Except.ok.inj h).symm⟩

@[simp] theorem lookup?_cons (entries : List (Label × Nat)) (l : Label) :
    lookup? ⟨(label, position) :: entries⟩ l =
      if l = label then some position else lookup? ⟨entries⟩ l := by
  unfold lookup?
  rw [List.lookup_cons]
  by_cases h : l = label
  · rw [if_pos h, beq_iff_eq.2 h]
  · rw [if_neg h, beq_eq_false_iff_ne.2 h]

end SymbolTable

/-! ## Statements -/

/-- `f` is the fragment of `s`. -/
def Statement.Yields (s : Statement) (f : Fragment) : Prop :=
  ∃ label body, s.split = .ok (label, body) ∧ s.encode label body = .ok f

/-- The trytes of the body of a statement. -/
def Statement.assemble (s : Statement) (label : Option Label) (body : Text) :
    Except Fault (List Relocatable) :=
  match s.segment with
  | .data => Data.assemble body
  | .code =>
    if body.isEmpty then .error (.noInstruction (label.getD []))
    else Instruction.assemble body

theorem Statement.assemble_of_data {s : Statement} (h : s.segment = .data)
    (label : Option Label) (body : Text) : s.assemble label body = Data.assemble body := by
  unfold Statement.assemble
  rw [h]

theorem Statement.assemble_of_code {s : Statement} (h : s.segment = .code) {label : Option Label}
    {body : Text} {trytes : List Relocatable} :
    s.assemble label body = .ok trytes ↔
      body ≠ [] ∧ Instruction.assemble body = .ok trytes := by
  unfold Statement.assemble
  rw [h]
  dsimp only
  split
  · rename_i hempty
    exact ⟨nofun, fun h => absurd (List.isEmpty_iff.1 hempty) h.1⟩
  · rename_i hne
    exact ⟨fun h => ⟨fun hnil => hne (List.isEmpty_iff.2 hnil), h⟩, And.right⟩

theorem Statement.encode_eq (s : Statement) (label : Option Label) (body : Text) :
    s.encode label body = s.assemble label body >>= fun trytes =>
      .ok ⟨s.segment, s.line, label, body, trytes⟩ := by
  obtain ⟨line, segment, text⟩ := s
  unfold Statement.encode Statement.assemble
  cases segment with
  | data => rfl
  | code => cases body <;> rfl

theorem Statement.encode_eq_ok_iff {s : Statement} {label : Option Label} {body : Text}
    {f : Fragment} :
    s.encode label body = .ok f ↔ ∃ trytes, s.assemble label body = .ok trytes ∧
      f = ⟨s.segment, s.line, label, body, trytes⟩ := by
  rw [Statement.encode_eq, Outcome.bind_eq_ok]
  constructor
  · rintro ⟨trytes, htrytes, h⟩
    exact ⟨trytes, htrytes, (Except.ok.inj h).symm⟩
  · rintro ⟨trytes, htrytes, rfl⟩
    exact ⟨trytes, htrytes, rfl⟩

/-- Records the labels of the fragments from `position` on. -/
def declareFrom (symbols : SymbolTable Nat) (position : Nat) :
    List Fragment → Except Fault (SymbolTable Nat)
  | [] => .ok symbols
  | f :: rest =>
    declare symbols position f.label >>= fun symbols => declareFrom symbols (position + 1) rest

theorem read_eq_ok_iff {symbols table : SymbolTable Nat} {position : Nat} {s : Statement}
    {f : Fragment} :
    Fragment.read symbols position s = .ok (table, f) ↔
      s.Yields f ∧ declare symbols position f.label = .ok table := by
  unfold Fragment.read
  rw [Outcome.bind_eq_ok]
  constructor
  · rintro ⟨⟨label, body⟩, hsplit, h⟩
    obtain ⟨table', hdeclare, h⟩ := Outcome.bind_eq_ok.1 h
    obtain ⟨f', hencode, h⟩ := Outcome.bind_eq_ok.1 h
    obtain ⟨rfl, rfl⟩ := Prod.mk.inj (Except.ok.inj h)
    obtain ⟨trytes, -, rfl⟩ := Statement.encode_eq_ok_iff.1 hencode
    exact ⟨⟨label, body, hsplit, hencode⟩, hdeclare⟩
  · rintro ⟨⟨label, body, hsplit, hencode⟩, hdeclare⟩
    refine ⟨(label, body), hsplit, Outcome.bind_eq_ok.2 ⟨table, ?_, ?_⟩⟩
    · obtain ⟨trytes, -, rfl⟩ := Statement.encode_eq_ok_iff.1 hencode
      exact hdeclare
    · exact Outcome.bind_eq_ok.2 ⟨f, hencode, rfl⟩

/-- Reading is to find the fragment of each statement, and then to collect the labels. -/
theorem readFrom_eq_ok_iff {symbols table : SymbolTable Nat} {position : Nat}
    {statements : List Statement} {fragments : List Fragment} :
    Fragment.readFrom symbols position statements = .ok (table, fragments) ↔
      List.Forall₂ Statement.Yields statements fragments ∧
        declareFrom symbols position fragments = .ok table := by
  induction statements generalizing symbols position fragments with
  | nil =>
    rw [List.forall₂_nil_left_iff]
    constructor
    · intro h
      obtain ⟨rfl, rfl⟩ := Prod.mk.inj (Except.ok.inj h)
      exact ⟨rfl, rfl⟩
    · rintro ⟨rfl, h⟩
      rw [← Except.ok.inj h]
      rfl
  | cons s statements ih =>
    rw [Fragment.readFrom, List.forall₂_cons_left_iff]
    constructor
    · intro h
      split at h
      · exact nomatch h
      · rename_i symbols' f hread
        obtain ⟨⟨table', fragments'⟩, hrest, h⟩ := Outcome.map_eq_ok.1 h
        obtain ⟨rfl, rfl⟩ := Prod.mk.inj h
        obtain ⟨hyields, hdeclare⟩ := read_eq_ok_iff.1 hread
        obtain ⟨hall, hrest⟩ := ih.1 hrest
        exact ⟨⟨f, fragments', hyields, hall, rfl⟩,
          Outcome.bind_eq_ok.2 ⟨symbols', hdeclare, hrest⟩⟩
    · rintro ⟨⟨f, fragments', hyields, hall, rfl⟩, h⟩
      obtain ⟨symbols', hdeclare, hrest⟩ := Outcome.bind_eq_ok.1 h
      rw [read_eq_ok_iff.2 ⟨hyields, hdeclare⟩]
      exact Outcome.map_eq_ok.2 ⟨(table, fragments'), ih.2 ⟨hall, hrest⟩, rfl⟩

/-! ## Labels -/

section Labels

variable {symbols table : SymbolTable Nat} {position : Nat} {fragments : List Fragment}

theorem lookup?_of_declare {label? : Option Label} (h : declare symbols position label? = .ok table)
    (l : Label) :
    table.lookup? l = if label? = some l then some position else symbols.lookup? l := by
  cases label? with
  | none => rw [← Except.ok.inj h, if_neg nofun]
  | some label =>
    obtain ⟨-, rfl⟩ := SymbolTable.fresh_of_define h
    rw [SymbolTable.lookup?_cons]
    by_cases hl : l = label
    · rw [if_pos hl, if_pos (hl ▸ rfl)]
    · rw [if_neg hl, if_neg fun h => hl (Option.some.inj h).symm]

/-- A label keeps what it stands for. -/
theorem lookup?_of_declareFrom_of_some (h : declareFrom symbols position fragments = .ok table)
    {l : Label} {k : Nat} (hl : symbols.lookup? l = some k) : table.lookup? l = some k := by
  induction fragments generalizing symbols position with
  | nil => rw [← Except.ok.inj h, hl]
  | cons f fragments ih =>
    obtain ⟨symbols', hdeclare, hrest⟩ := Outcome.bind_eq_ok.1 h
    apply ih hrest
    rw [lookup?_of_declare hdeclare, if_neg _, hl]
    -- A label that is there already cannot be declared.
    intro hlabel
    rw [hlabel] at hdeclare
    rw [(SymbolTable.fresh_of_define hdeclare).1] at hl
    exact nomatch hl

theorem lookup?_of_declareFrom (h : declareFrom symbols position fragments = .ok table) {k : Nat}
    {f : Fragment} (hf : fragments[k]? = some f) {l : Label} (hl : f.label = some l) :
    table.lookup? l = some (position + k) := by
  induction fragments generalizing symbols position k with
  | nil => exact nomatch hf
  | cons g fragments ih =>
    obtain ⟨symbols', hdeclare, hrest⟩ := Outcome.bind_eq_ok.1 h
    cases k with
    | zero =>
      obtain rfl : g = f := Option.some.inj hf
      apply lookup?_of_declareFrom_of_some hrest
      rw [lookup?_of_declare hdeclare, if_pos hl]
      rfl
    | succ k =>
      rw [ih hrest hf, Nat.add_assoc, Nat.add_comm 1 k]

/-- Labels that are all different can be declared. -/
theorem exists_declareFrom (hfresh : ∀ l ∈ fragments.filterMap Fragment.label,
      symbols.lookup? l = none) (hnodup : (fragments.filterMap Fragment.label).Nodup)
    (position : Nat) : ∃ table, declareFrom symbols position fragments = .ok table := by
  induction fragments generalizing symbols position with
  | nil => exact ⟨symbols, rfl⟩
  | cons f fragments ih =>
    rw [List.filterMap_cons] at hfresh hnodup
    cases hlabel : f.label with
    | none =>
      rw [hlabel] at hfresh hnodup
      obtain ⟨table, htable⟩ := ih hfresh hnodup (position + 1)
      exact ⟨table, Outcome.bind_eq_ok.2 ⟨symbols, by rw [hlabel]; rfl, htable⟩⟩
    | some l =>
      rw [hlabel] at hfresh hnodup
      dsimp only at hfresh hnodup
      rw [List.forall_mem_cons] at hfresh
      rw [List.nodup_cons] at hnodup
      have hdeclare : declare symbols position f.label = .ok ⟨(l, position) :: symbols.entries⟩ := by
        rw [hlabel]
        exact SymbolTable.define_of_fresh hfresh.1
      have hrest : ∀ m ∈ fragments.filterMap Fragment.label,
          SymbolTable.lookup? ⟨(l, position) :: symbols.entries⟩ m = none := by
        intro m hm
        rw [SymbolTable.lookup?_cons, if_neg fun h : m = l => hnodup.1 (h ▸ hm)]
        exact hfresh.2 m hm
      obtain ⟨table, htable⟩ := ih hrest hnodup.2 (position + 1)
      exact ⟨table, Outcome.bind_eq_ok.2 ⟨_, hdeclare, htable⟩⟩

/-- A label leads to the address of the fragment that carries it. -/
theorem address?_of_declareFrom (h : declareFrom .empty 0 fragments = .ok table) {k : Nat}
    {f : PlacedFragment} (hf : (place fragments)[k]? = some f) {l : Label}
    (hfragment : fragments[k]? = some f.toFragment) (hl : f.label = some l) :
    Symbols.address? ⟨table, place fragments⟩ l = some f.address := by
  unfold Symbols.address?
  rw [lookup?_of_declareFrom h hfragment hl, Nat.zero_add, Option.bind_some, hf]
  rfl

end Labels

end BalancedTernary.Assembly
