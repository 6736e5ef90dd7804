import BalancedTernary.Proofs.Interleaving

/-!
# Line numbers

The number of its line stays with a statement for the sake of messages. No step of an assembly looks
at it: the same statements on other lines give the same program, or the same fault.
-/

namespace BalancedTernary.Assembly

/-! ## Without numbers -/

def Statement.unnumbered (s : Statement) : Statement := { s with line := 0 }

def Fragment.unnumbered (f : Fragment) : Fragment := { f with line := 0 }

def PlacedFragment.unnumbered (f : PlacedFragment) : PlacedFragment := { f with line := 0 }

def LinkedFragment.unnumbered (u : LinkedFragment) : LinkedFragment := { u with line := 0 }

def Program.unnumbered (p : Program) : Program :=
  { p with fragments := p.fragments.map LinkedFragment.unnumbered }

def LineFault.unnumbered (e : LineFault) : LineFault := { e with line := 0 }

/-- A result without line numbers, where `f` takes them off the value. -/
def unnumber {α : Type} (f : α → α) (x : Except LineFault α) : Except LineFault α :=
  (x.map f).mapError LineFault.unnumbered

theorem unnumber_bind {α β : Type} {f : α → α} {g : β → β} {next : α → Except LineFault β}
    (h : ∀ a, next (f a) = unnumber g (next a)) (x : Except LineFault α) :
    unnumber f x >>= next = unnumber g (x >>= next) := by
  cases x with
  | error e => rfl
  | ok a => exact h a

theorem mapM_unnumber {α β : Type} {f : α → α} {g : β → β} {run run' : α → Except LineFault β}
    (h : ∀ a, run' (f a) = unnumber g (run a)) (xs : List α) :
    (xs.map f).mapM run' = unnumber (List.map g) (xs.mapM run) := by
  induction xs with
  | nil => rfl
  | cons a xs ih =>
    rw [List.map_cons, List.mapM_cons, List.mapM_cons, h, ih]
    cases run a with
    | error e => rfl
    | ok b =>
      cases xs.mapM run with
      | error e => rfl
      | ok bs => rfl

/-! ## Reading -/

theorem read_unnumbered (symbols : SymbolTable Nat) (position : Nat) (s : Statement) :
    Fragment.read symbols position s.unnumbered =
      (Fragment.read symbols position s).map fun (table, f) => (table, f.unnumbered) := by
  have hencode (label : Option Label) (body : Text) :
      s.unnumbered.encode label body = (s.encode label body).map Fragment.unnumbered := by
    rw [Statement.encode_eq, Statement.encode_eq]
    show s.assemble label body >>= _ = _
    cases s.assemble label body <;> rfl
  unfold Fragment.read
  show s.split >>= _ = _
  cases s.split with
  | error fault => rfl
  | ok parts =>
    obtain ⟨label, body⟩ := parts
    show declare symbols position label >>= _ = Except.map _ (declare symbols position label >>= _)
    cases declare symbols position label with
    | error fault => rfl
    | ok table =>
      show s.unnumbered.encode label body >>= _ = Except.map _ (s.encode label body >>= _)
      rw [hencode]
      cases s.encode label body <;> rfl

theorem readFrom_unnumbered (symbols : SymbolTable Nat) (position : Nat) (found : List Statement) :
    Fragment.readFrom symbols position (found.map Statement.unnumbered) =
      unnumber (fun (table, fragments) => (table, fragments.map Fragment.unnumbered))
        (Fragment.readFrom symbols position found) := by
  induction found generalizing symbols position with
  | nil => rfl
  | cons s found ih =>
    rw [List.map_cons, Fragment.readFrom, Fragment.readFrom, read_unnumbered]
    cases Fragment.read symbols position s with
    | error fault => rfl
    | ok parts =>
      obtain ⟨table, f⟩ := parts
      dsimp only [Except.map]
      rw [ih]
      cases Fragment.readFrom table (position + 1) found <;> rfl

/-! ## Linking -/

theorem segmentSize_unnumbered (segment : Segment) (fragments : List Fragment) :
    segmentSize segment (fragments.map Fragment.unnumbered) = segmentSize segment fragments := by
  unfold segmentSize
  rw [List.filter_map, List.flatMap_map]
  rfl

theorem placeFrom_unnumbered (codeAt dataAt : Nat) (fragments : List Fragment) :
    placeFrom codeAt dataAt (fragments.map Fragment.unnumbered) =
      (placeFrom codeAt dataAt fragments).map PlacedFragment.unnumbered := by
  induction fragments generalizing codeAt dataAt with
  | nil => rfl
  | cons f fragments ih =>
    have hsegment : f.unnumbered.segment = f.segment := rfl
    rw [List.map_cons, placeFrom, placeFrom, hsegment]
    cases f.segment with
    | code => exact congrArg (_ :: ·) (ih _ _)
    | data => exact congrArg (_ :: ·) (ih _ _)

theorem place_unnumbered (fragments : List Fragment) :
    place (fragments.map Fragment.unnumbered) =
      (place fragments).map PlacedFragment.unnumbered := by
  unfold place
  rw [segmentSize_unnumbered, placeFrom_unnumbered]

section Link

variable (table : SymbolTable Nat) (placed : List PlacedFragment) (base : Int64)

theorem address?_unnumbered (label : Label) :
    Symbols.address? ⟨table, placed.map PlacedFragment.unnumbered⟩ label =
      Symbols.address? ⟨table, placed⟩ label := by
  unfold Symbols.address?
  congr 1
  funext position
  rw [List.getElem?_map, Option.map_map]
  rfl

theorem resolve_unnumbered (f : PlacedFragment) (slot : Relocatable) :
    f.unnumbered.resolve ⟨table, placed.map PlacedFragment.unnumbered⟩ base slot =
      f.resolve ⟨table, placed⟩ base slot := by
  cases slot with
  | tryte t => rfl
  | address label => simp only [PlacedFragment.resolve, address?_unnumbered]
  | displacement label =>
    simp only [PlacedFragment.resolve, address?_unnumbered]
    rfl

theorem fragment_link_unnumbered (f : PlacedFragment) :
    f.unnumbered.link ⟨table, placed.map PlacedFragment.unnumbered⟩ base =
      unnumber LinkedFragment.unnumbered (f.link ⟨table, placed⟩ base) := by
  unfold PlacedFragment.link
  rw [funext (resolve_unnumbered table placed base f), show f.unnumbered.trytes = f.trytes from rfl]
  cases f.trytes.mapM (f.resolve ⟨table, placed⟩ base) <;> rfl

theorem link_unnumbered (fragments : List Fragment) :
    link base table (fragments.map Fragment.unnumbered) =
      unnumber Program.unnumbered (link base table fragments) := by
  unfold link
  dsimp only
  rw [place_unnumbered, mapM_unnumber (fragment_link_unnumbered table (place fragments) base)]
  apply unnumber_bind
  intro linked
  rfl

end Link

/-! ## Programs -/

/-- The statements alone decide on the program, not the lines that they stand on. -/
theorem assemble_unnumbered (config : Config) {source source' : Text}
    (h : (statements config.comment source).map Statement.unnumbered =
      (statements config.comment source').map Statement.unnumbered) :
    unnumber Program.unnumbered (assemble config source) =
      unnumber Program.unnumbered (assemble config source') := by
  have hrun (source : Text) : unnumber Program.unnumbered (assemble config source) =
      Fragment.readAll ((statements config.comment source).map Statement.unnumbered) >>=
        fun (table, fragments) => link config.base table fragments := by
    unfold assemble Fragment.readAll
    rw [readFrom_unnumbered]
    refine (unnumber_bind (fun found => ?_) _).symm
    exact link_unnumbered found.1 config.base found.2
  rw [hrun, hrun, h]

/-- What an assembly comes to, apart from lines: the image and the addresses of the symbols, or the
kind of the fault. -/
def summary : Except LineFault Program → Except FaultKind (Word × List (Label × Nat))
  | .ok p => .ok (p.image, p.symbolAddresses)
  | .error e => .error e.fault.kind

theorem Program.image_unnumbered (p : Program) : p.unnumbered.image = p.image := by
  unfold image inOrder unnumbered
  rw [List.filter_map, List.filter_map, ← List.map_append, List.flatMap_map]
  rfl

theorem Program.symbolAddresses_unnumbered (p : Program) :
    p.unnumbered.symbolAddresses = p.symbolAddresses := by
  unfold symbolAddresses symbols
  rw [List.map_filterMap, List.map_filterMap]
  congr 1
  funext label
  unfold symbol? unnumbered
  simp only [List.getElem?_map, Option.map_bind, Function.comp_def, Option.map_map]
  rfl

theorem summary_unnumber (result : Except LineFault Program) :
    summary (unnumber Program.unnumbered result) = summary result := by
  cases result with
  | error e => rfl
  | ok p =>
    show Except.ok (p.unnumbered.image, p.unnumbered.symbolAddresses) = _
    rw [p.image_unnumbered, p.symbolAddresses_unnumbered]
    rfl

end BalancedTernary.Assembly
