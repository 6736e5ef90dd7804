import BalancedTernary.Proofs.Reachability
import BalancedTernary.Proofs.Soundness
import Mathlib.Data.List.Perm.Subperm
import Mathlib.Logic.Relation

/-!
# Control flow

The addresses that hold an instruction are the nodes of a graph, and each instruction has an edge to
where execution may continue. The addresses that are marked are those that can be reached from the
first one in this graph. A search with a queue, in which every address is queued once, ends and
finds the same marks and the same branch targets.
-/

namespace BalancedTernary.Disassembly

/-! ## The graph -/

/-- `d` is the instruction at the address `a` of the image. -/
def InstructionAt (image : Word) (a : Nat) (d : Decoded) : Prop :=
  a < image.length ∧ decode? a (image.drop a) = some d

/-- An instruction is at the address, and not only data. -/
def IsNode (image : Word) (a : Nat) : Prop := ∃ d, InstructionAt image a d

/-- `d`, which is at the address `a`, is a jump with an immediate operand that leads from its end to
the address `b` of the image. -/
def Decoded.BranchesTo (image : Word) (a : Nat) (d : Decoded) (b : Nat) : Prop :=
  d.family = .jump ∧ b < image.length ∧
    ∃ argument ∈ d.arguments, ∃ v : Int, argument.value = .branch v b ∧ (b : Int) = a + d.length + v

/-- Execution may go on from the instruction at `a` to the one at `b`. -/
inductive Edge (image : Word) (a : Nat) : Nat → Prop where
  | next {d : Decoded} : InstructionAt image a d → d.mnemonic ≠ "jmp" → d.mnemonic ≠ "restart" →
      IsNode image (a + d.length) → Edge image a (a + d.length)
  | branch {d : Decoded} {b : Nat} : InstructionAt image a d → d.BranchesTo image a b →
      IsNode image b → Edge image a b

/-- Execution that starts at the first address may come to the instruction at `a`. -/
def Reachable (image : Word) (a : Nat) : Prop :=
  IsNode image 0 ∧ Relation.ReflTransGen (Edge image) 0 a

section Graph

variable {image : Word} {a b : Nat} {d : Decoded}

theorem InstructionAt.unique {d' : Decoded} (h : InstructionAt image a d)
    (h' : InstructionAt image a d') : d = d' :=
  Option.some.inj (h.2.symm.trans h'.2)

/-- An instruction ends in the image; in particular there is none behind its last tryte. -/
theorem bounds_of_decode? (h : decode? a (image.drop a) = some d) :
    0 < d.length ∧ a + d.length ≤ image.length :=
  (show (Row.code a d).Shows image from h).bounds

/-- Only jumps have branches, and those lead on from the end of the jump. -/
theorem InstructionAt.jump_of_branch (h : InstructionAt image a d) {argument : Argument}
    (hmem : argument ∈ d.arguments) {v target : Int} (hvalue : argument.value = .branch v target) :
    d.family = .jump ∧ target = a + d.length + v := by
  obtain ⟨format, c, hd⟩ := exists_recognised h.2
  obtain ⟨k, hk⟩ := List.mem_iff_getElem?.1 hmem
  cases hmode : argument.mode.isRegister with
  | true =>
    rw [hd.value_of_register (hd.getElem?_arguments hk).1 hk hmode] at hvalue
    split at hvalue <;> exact nomatch hvalue
  | false =>
    rw [hd.value_of_immediate hk hmode] at hvalue
    split at hvalue
    · rename_i hrelative
      obtain ⟨rfl, rfl⟩ := Argument.Value.branch.inj hvalue
      exact ⟨Family.isRelative_iff.1 hrelative, by rw [Int.natCast_add]⟩
    · exact nomatch hvalue

theorem Decoded.lt_of_mem_targets {size : Nat} (h : b ∈ d.targets size) : b < size := by
  obtain ⟨argument, -, hb⟩ := List.mem_filterMap.1 h
  split at hb
  · split at hb
    · rename_i hrange
      rw [← Option.some.inj hb]
      omega
    · exact nomatch hb
  · exact nomatch hb

theorem InstructionAt.mem_targets_iff (h : InstructionAt image a d) :
    b ∈ d.targets image.length ↔ d.BranchesTo image a b := by
  constructor
  · intro hb
    obtain ⟨argument, hmem, v, hvalue⟩ := Decoded.mem_targets hb
    obtain ⟨hjump, htarget⟩ := h.jump_of_branch hmem hvalue
    exact ⟨hjump, Decoded.lt_of_mem_targets hb, argument, hmem, v, hvalue, htarget⟩
  · rintro ⟨-, hlt, argument, hmem, v, hvalue, -⟩
    refine List.mem_filterMap.2 ⟨argument, hmem, ?_⟩
    rw [hvalue]
    simp [hlt]

theorem Decoded.isTerminal_eq_false_iff :
    d.isTerminal = false ↔ d.mnemonic ≠ "jmp" ∧ d.mnemonic ≠ "restart" := by
  unfold Decoded.isTerminal
  simp

theorem InstructionAt.mem_successors_iff (h : InstructionAt image a d) :
    b ∈ d.successors image.length a ↔
      (b = a + d.length ∧ d.mnemonic ≠ "jmp" ∧ d.mnemonic ≠ "restart") ∨
        d.BranchesTo image a b := by
  unfold Decoded.successors
  rw [List.mem_append, h.mem_targets_iff, ← Decoded.isTerminal_eq_false_iff]
  cases d.isTerminal <;> simp

theorem InstructionAt.successor_le (h : InstructionAt image a d)
    (hb : b ∈ d.successors image.length a) : b ≤ image.length := by
  rcases h.mem_successors_iff.1 hb with ⟨rfl, -⟩ | hbranch
  · exact (bounds_of_decode? h.2).2
  · exact hbranch.2.1.le

/-- The edges lead to those successors that are instructions. -/
theorem InstructionAt.edge_iff (h : InstructionAt image a d) :
    Edge image a b ↔ b ∈ d.successors image.length a ∧ IsNode image b := by
  rw [h.mem_successors_iff]
  constructor
  · intro hedge
    cases hedge with
    | next hd hjmp hrestart hnode =>
      obtain rfl := h.unique hd
      exact ⟨.inl ⟨rfl, hjmp, hrestart⟩, hnode⟩
    | branch hd hbranch hnode =>
      obtain rfl := h.unique hd
      exact ⟨.inr hbranch, hnode⟩
  · rintro ⟨⟨rfl, hjmp, hrestart⟩ | hbranch, hnode⟩
    · exact .next h hjmp hrestart hnode
    · exact .branch h hbranch hnode

theorem isNode_iff : IsNode image a ↔ (successors? (decoded image) a).isSome := by
  rw [Option.isSome_iff_exists]
  simp only [successors?_eq_some_iff]
  constructor
  · rintro ⟨d, hlt, hd⟩
    exact ⟨_, d, hlt, hd, rfl⟩
  · rintro ⟨next, d, hlt, hd, -⟩
    exact ⟨d, hlt, hd⟩

theorem reaches_iff_reachable : Reaches (successors? (decoded image)) [0] a ↔ Reachable image a := by
  constructor
  · intro h
    induction h with
    | start hmem hsome =>
      rw [List.eq_of_mem_singleton hmem] at hsome ⊢
      exact ⟨isNode_iff.2 hsome, .refl⟩
    | step _ hnext hmem hsome ih =>
      obtain ⟨d, hlt, hd, rfl⟩ := successors?_eq_some_iff.1 hnext
      exact ⟨ih.1, ih.2.tail
        ((InstructionAt.edge_iff ⟨hlt, hd⟩).2 ⟨hmem, isNode_iff.2 hsome⟩)⟩
  · rintro ⟨hentry, hpath⟩
    induction hpath with
    | refl => exact .start List.mem_cons_self (isNode_iff.1 hentry)
    | @tail b c _ hedge ih =>
      obtain ⟨d, hd⟩ : IsNode image b := by
        cases hedge with
        | next hd => exact ⟨_, hd⟩
        | branch hd => exact ⟨_, hd⟩
      obtain ⟨hmem, hnode⟩ := hd.edge_iff.1 hedge
      exact .step ih (successors?_eq_some_iff.2 ⟨d, hd.1, hd.2, rfl⟩) hmem (isNode_iff.1 hnode)

end Graph

/-! ## Marks -/

section Explore

variable {successors : Nat → Option (List Nat)} {reached : Array Bool} {pending : List Nat}
  {a b : Nat}

theorem explore_of_reached (h : reached[a]? = some true) :
    (explore successors reached pending)[a]? = some true := by
  fun_induction explore successors reached pending with
  | case1 reached => exact h
  | case2 reached address pending hlt hr next hnext ih =>
    apply ih
    rw [Array.getElem?_set hlt, h, ite_self]
  | case3 reached address pending hlt hr hnone ih => exact ih h
  | case4 reached address pending hlt hr ih => exact ih h
  | case5 reached address pending hlt ih => exact ih h

theorem explore_of_pending (ha : a ∈ pending) (hsize : a < reached.size)
    (hsome : (successors a).isSome) : (explore successors reached pending)[a]? = some true := by
  fun_induction explore successors reached pending with
  | case1 reached => exact absurd ha List.not_mem_nil
  | case2 reached address pending hlt hr next hnext ih =>
    rcases List.mem_cons.1 ha with rfl | ha
    · exact explore_of_reached (by simp [hlt])
    · exact ih (List.mem_append_right _ ha) (by rwa [Array.size_set])
  | case3 reached address pending hlt hr hnone ih =>
    rcases List.mem_cons.1 ha with rfl | ha
    · rw [hnone] at hsome
      exact absurd hsome Bool.false_ne_true
    · exact ih ha hsize
  | case4 reached address pending hlt hr ih =>
    rcases List.mem_cons.1 ha with rfl | ha
    · -- It has a mark already, and marks stay.
      refine explore_of_reached ?_
      rw [Array.getElem?_eq_getElem hlt, Bool.eq_true_of_not_eq_false hr]
    · exact ih ha hsize
  | case5 reached address pending hlt ih =>
    rcases List.mem_cons.1 ha with rfl | ha
    · exact absurd hsize hlt
    · exact ih ha hsize

/-- A new mark brings with it the marks of the successors. -/
theorem explore_of_successor {next : List Nat}
    (h : (explore successors reached pending)[a]? = some true) (hnew : reached[a]? ≠ some true)
    (hnext : successors a = some next) (hb : b ∈ next) (hsize : b < reached.size)
    (hsome : (successors b).isSome) : (explore successors reached pending)[b]? = some true := by
  fun_induction explore successors reached pending with
  | case1 reached => exact absurd h hnew
  | case2 reached address pending hlt hr next' hnext' ih =>
    by_cases heq : address = a
    · subst heq
      obtain rfl : next = next' := Option.some.inj (hnext.symm.trans hnext')
      exact explore_of_pending (List.mem_append_left _ hb) (by rwa [Array.size_set]) hsome
    · refine ih h ?_ (by rwa [Array.size_set])
      rwa [Array.getElem?_set_ne hlt heq]
  | case3 reached address pending hlt hr hnone ih => exact ih h hnew hsize
  | case4 reached address pending hlt hr ih => exact ih h hnew hsize
  | case5 reached address pending hlt ih => exact ih h hnew hsize

end Explore

theorem marked_iff_reaches {image : Word} {a : Nat} :
    Marked image a ↔ Reaches (successors? (decoded image)) [0] a := by
  have hsize {a : Nat} (h : (successors? (decoded image) a).isSome) :
      a < (Array.replicate (decoded image).size false).size := by
    obtain ⟨d, hlt, -⟩ := isNode_iff.2 h
    rwa [Array.size_replicate, size_decoded]
  refine ⟨Marked.reaches, fun h => ?_⟩
  unfold Marked reached
  induction h with
  | start hmem hsome => exact explore_of_pending hmem (hsize hsome) hsome
  | step _ hnext hmem hsome ih =>
    -- There are no marks at the start, so every mark is new.
    refine explore_of_successor ih ?_ hnext hmem (hsize hsome) hsome
    simp [Array.getElem?_replicate]

theorem marked_iff_reachable {image : Word} {a : Nat} :
    Marked image a ↔ Reachable image a :=
  marked_iff_reaches.trans reaches_iff_reachable

theorem Marked.isNode {image : Word} {a : Nat} (h : Marked image a) : IsNode image a := by
  cases h.reaches with
  | start _ hsome => exact isNode_iff.2 hsome
  | step _ _ _ hsome => exact isNode_iff.2 hsome

theorem mem_branchTargets_iff {image : Word} {b : Nat} :
    b ∈ branchTargets (cells image) ↔
      ∃ a d, Marked image a ∧ InstructionAt image a d ∧ d.BranchesTo image a b := by
  unfold branchTargets
  rw [List.mem_flatMap]
  constructor
  · rintro ⟨⟨t, d?⟩, hcell, hb⟩
    obtain ⟨a, ha⟩ := List.mem_iff_getElem?.1 hcell
    cases d? with
    | none => exact nomatch hb
    | some d =>
      obtain ⟨hmarked, hd⟩ := marked_of_cell ha
      have hlt : a < image.length := length_cells image ▸ (List.getElem?_eq_some_iff.1 ha).1
      rw [length_cells] at hb
      exact ⟨a, d, hmarked, ⟨hlt, hd⟩, (InstructionAt.mem_targets_iff ⟨hlt, hd⟩).1 hb⟩
  · rintro ⟨a, d, hmarked, hd, hb⟩
    obtain ⟨t, ht⟩ : ∃ t, image[a]? = some t := ⟨_, List.getElem?_eq_getElem hd.1⟩
    have hcell : (cells image)[a]? = some (t, some d) := by
      rw [getElem?_cells, ht, if_pos hmarked, hd.2]
      rfl
    refine ⟨_, List.mem_of_getElem? hcell, ?_⟩
    rw [length_cells]
    exact hd.mem_targets_iff.2 hb

/-! ## A search with a queue -/

/-- The state of a search: the addresses to look at, in order, those that were ever queued, those
that were found to be code, and those that code branches to. -/
structure Search where
  queue : List Nat
  seen : List Nat
  marked : List Nat
  targets : List Nat

namespace Search

/-- Queues an address, unless it was queued before. -/
def push (s : Search) (a : Nat) : Search :=
  if a ∈ s.seen then s else { s with queue := s.queue ++ [a], seen := s.seen ++ [a] }

/-- Looks at the first address in the queue. -/
def step (image : Word) (s : Search) : Search :=
  match s.queue with
  | [] => s
  | a :: queue =>
    match decode? a (image.drop a) with
    | none => { s with queue }
    | some d =>
      if a ∈ s.marked then { s with queue }
      else
        (d.successors image.length a).foldl push
          { s with
            queue
            marked := a :: s.marked
            targets := d.targets image.length ++ s.targets }

def start : Search := ⟨[0], [0], [], []⟩

/-- The state after `n` rounds. -/
def run (image : Word) : Nat → Search
  | 0 => start
  | n + 1 => (run image n).step image

/-- What holds after the given number of rounds. -/
structure Invariant (image : Word) (rounds : Nat) (s : Search) : Prop where
  /-- Each round takes one address from the queue, and none comes back. -/
  length_seen : rounds + s.queue.length = s.seen.length
  nodup : s.seen.Nodup
  seen_le : ∀ a ∈ s.seen, a ≤ image.length
  zero_seen : 0 ∈ s.seen
  queue_seen : ∀ a ∈ s.queue, a ∈ s.seen
  reachable : ∀ a ∈ s.seen, IsNode image a → Reachable image a
  marked_node : ∀ a ∈ s.marked, a ∈ s.seen ∧ IsNode image a
  settled : ∀ a ∈ s.seen, IsNode image a → a ∈ s.queue ∨ a ∈ s.marked
  closed : ∀ a ∈ s.marked, ∀ d, InstructionAt image a d →
    ∀ b ∈ d.successors image.length a, b ∈ s.seen
  mem_targets : ∀ b, b ∈ s.targets ↔
    ∃ a ∈ s.marked, ∃ d, InstructionAt image a d ∧ d.BranchesTo image a b

/-- Of the addresses that are pushed, those that are new are queued, each of them once. -/
theorem exists_foldl_push (s : Search) (xs : List Nat) :
    ∃ new : List Nat, new.Nodup ∧ (∀ b, b ∈ new ↔ b ∈ xs ∧ b ∉ s.seen) ∧
      xs.foldl push s = { s with queue := s.queue ++ new, seen := s.seen ++ new } := by
  induction xs generalizing s with
  | nil => exact ⟨[], .nil, by simp, by simp⟩
  | cons x xs ih =>
    rw [List.foldl_cons]
    by_cases hx : x ∈ s.seen
    · obtain ⟨new, hnodup, hnew, heq⟩ := ih s
      have hpush : s.push x = s := if_pos hx
      refine ⟨new, hnodup, fun b => ?_, by rw [hpush, heq]⟩
      rw [hnew, List.mem_cons]
      constructor
      · exact fun h => ⟨.inr h.1, h.2⟩
      · rintro ⟨rfl | hb, hseen⟩
        · exact absurd hx hseen
        · exact ⟨hb, hseen⟩
    · have hpush : s.push x = { s with queue := s.queue ++ [x], seen := s.seen ++ [x] } := if_neg hx
      -- The pushes that follow find `x` among those seen, so it does not come twice.
      obtain ⟨new, hnodup, hnew, heq⟩ := ih (s.push x)
      rw [hpush] at hnew heq
      dsimp only at hnew
      refine ⟨x :: new, List.nodup_cons.2 ⟨fun h => ?_, hnodup⟩, fun b => ?_, ?_⟩
      · exact ((hnew x).1 h).2 (by simp)
      · rw [List.mem_cons, hnew, List.mem_cons, List.mem_append, List.mem_singleton]
        by_cases hb : b = x
        · simp [hb, hx]
        · simp [hb]
      · rw [hpush, heq]
        simp [List.append_assoc]

theorem invariant_start (image : Word) : Invariant image 0 start where
  length_seen := rfl
  nodup := by decide
  seen_le := by simp [start]
  zero_seen := List.mem_cons_self
  queue_seen := fun _ h => h
  reachable := by
    intro a ha hnode
    obtain rfl := List.eq_of_mem_singleton ha
    exact ⟨hnode, .refl⟩
  marked_node := nofun
  settled := fun _ h _ => .inl h
  closed := nofun
  mem_targets := by simp [start]

section Step

variable {image : Word} {rounds a : Nat} {queue : List Nat} {s : Search}

/-- A round that finds no code, or none that is new. -/
theorem Invariant.skip (h : Invariant image rounds s) (hqueue : s.queue = a :: queue)
    (ha : IsNode image a → a ∈ s.marked) : Invariant image (rounds + 1) { s with queue } where
  length_seen := by
    have hlength := h.length_seen
    rw [hqueue, List.length_cons] at hlength
    dsimp only
    omega
  nodup := h.nodup
  seen_le := h.seen_le
  zero_seen := h.zero_seen
  queue_seen := fun b hb => h.queue_seen b (hqueue ▸ List.mem_cons_of_mem _ hb)
  reachable := h.reachable
  marked_node := h.marked_node
  settled := by
    intro b hb hnode
    rcases h.settled b hb hnode with hb | hb
    · rw [hqueue] at hb
      rcases List.mem_cons.1 hb with rfl | hb
      · exact .inr (ha hnode)
      · exact .inl hb
    · exact .inr hb
  closed := h.closed
  mem_targets := h.mem_targets

/-- A round that marks the instruction at `a`, and queues those of its successors that are new. -/
theorem Invariant.mark {d : Decoded} {new : List Nat} (h : Invariant image rounds s)
    (hqueue : s.queue = a :: queue) (hd : InstructionAt image a d) (hnodup : new.Nodup)
    (hnew : ∀ b, b ∈ new ↔ b ∈ d.successors image.length a ∧ b ∉ s.seen) :
    Invariant image (rounds + 1)
      ⟨queue ++ new, s.seen ++ new, a :: s.marked, d.targets image.length ++ s.targets⟩ where
  length_seen := by
    have hlength := h.length_seen
    rw [hqueue, List.length_cons] at hlength
    dsimp only
    rw [List.length_append, List.length_append]
    omega
  nodup := List.nodup_append'.2 ⟨h.nodup, hnodup, fun b hb hb' => ((hnew b).1 hb').2 hb⟩
  seen_le := by
    intro b hb
    rcases List.mem_append.1 hb with hb | hb
    · exact h.seen_le b hb
    · exact hd.successor_le ((hnew b).1 hb).1
  zero_seen := List.mem_append_left _ h.zero_seen
  queue_seen := by
    intro b hb
    rcases List.mem_append.1 hb with hb | hb
    · exact List.mem_append_left _ (h.queue_seen b (hqueue ▸ List.mem_cons_of_mem _ hb))
    · exact List.mem_append_right _ hb
  reachable := by
    intro b hb hnode
    rcases List.mem_append.1 hb with hb | hb
    · exact h.reachable b hb hnode
    · -- A new address is a successor of `a`, which was queued and so can be reached.
      have hreachable := h.reachable a (h.queue_seen a (hqueue ▸ List.mem_cons_self)) ⟨d, hd⟩
      exact ⟨hreachable.1, hreachable.2.tail (hd.edge_iff.2 ⟨((hnew b).1 hb).1, hnode⟩)⟩
  marked_node := by
    intro b hb
    rcases List.mem_cons.1 hb with rfl | hb
    · exact ⟨List.mem_append_left _ (h.queue_seen b (hqueue ▸ List.mem_cons_self)), d, hd⟩
    · exact ⟨List.mem_append_left _ (h.marked_node b hb).1, (h.marked_node b hb).2⟩
  settled := by
    intro b hb hnode
    rcases List.mem_append.1 hb with hb | hb
    · rcases h.settled b hb hnode with hb | hb
      · rw [hqueue] at hb
        rcases List.mem_cons.1 hb with rfl | hb
        · exact .inr List.mem_cons_self
        · exact .inl (List.mem_append_left _ hb)
      · exact .inr (List.mem_cons_of_mem _ hb)
    · exact .inl (List.mem_append_right _ hb)
  closed := by
    intro b hb d' hd' c hc
    rcases List.mem_cons.1 hb with rfl | hb
    · obtain rfl := hd.unique hd'
      by_cases hseen : c ∈ s.seen
      · exact List.mem_append_left _ hseen
      · exact List.mem_append_right _ ((hnew c).2 ⟨hc, hseen⟩)
    · exact List.mem_append_left _ (h.closed b hb d' hd' c hc)
  mem_targets := by
    intro b
    rw [List.mem_append, hd.mem_targets_iff, h.mem_targets]
    constructor
    · rintro (hb | ⟨c, hc, hb⟩)
      · exact ⟨a, List.mem_cons_self, d, hd, hb⟩
      · exact ⟨c, List.mem_cons_of_mem _ hc, hb⟩
    · rintro ⟨c, hc, d', hd', hb⟩
      rcases List.mem_cons.1 hc with rfl | hc
      · exact .inl (hd.unique hd' ▸ hb)
      · exact .inr ⟨c, hc, d', hd', hb⟩

theorem Invariant.step (h : Invariant image rounds s) (hqueue : s.queue ≠ []) :
    Invariant image (rounds + 1) (s.step image) := by
  obtain ⟨a, queue, hqueue⟩ := List.exists_cons_of_ne_nil hqueue
  unfold Search.step
  rw [hqueue]
  dsimp only
  cases hd : decode? a (image.drop a) with
  | none =>
    refine h.skip hqueue ?_
    rintro ⟨d, -, hsome⟩
    rw [hd] at hsome
    exact nomatch hsome
  | some d =>
    dsimp only
    by_cases hmarked : a ∈ s.marked
    · rw [if_pos hmarked]
      exact h.skip hqueue fun _ => hmarked
    · rw [if_neg hmarked]
      obtain ⟨new, hnodup, hnew, heq⟩ := exists_foldl_push
        ⟨queue, s.seen, a :: s.marked, d.targets image.length ++ s.targets⟩
        (d.successors image.length a)
      rw [heq]
      exact h.mark hqueue ⟨by have := bounds_of_decode? hd; omega, hd⟩ hnodup hnew

/-- Distinct addresses are queued, so there are not more rounds than addresses. -/
theorem Invariant.rounds_le (h : Invariant image rounds s) :
    rounds + s.queue.length ≤ image.length + 1 := by
  have hsub : s.seen ⊆ List.range (image.length + 1) := fun b hb =>
    List.mem_range.2 (Nat.lt_succ_of_le (h.seen_le b hb))
  have hle := (h.nodup.subperm hsub).length_le
  rw [List.length_range] at hle
  rw [h.length_seen]
  exact hle

/-- Once the queue is empty, exactly the reachable addresses are marked. -/
theorem Invariant.mem_marked_iff (h : Invariant image rounds s) (hqueue : s.queue = []) :
    a ∈ s.marked ↔ Reachable image a := by
  have hmarked {b : Nat} (hb : b ∈ s.seen) (hnode : IsNode image b) : b ∈ s.marked := by
    refine (h.settled b hb hnode).resolve_left ?_
    rw [hqueue]
    exact List.not_mem_nil
  constructor
  · intro ha
    obtain ⟨hseen, hnode⟩ := h.marked_node a ha
    exact h.reachable a hseen hnode
  · -- The marks have the first node and go on along every edge.
    rintro ⟨hentry, hpath⟩
    induction hpath with
    | refl => exact hmarked h.zero_seen hentry
    | @tail b c _ hedge ih =>
      obtain ⟨d, hd⟩ := (h.marked_node b ih).2
      obtain ⟨hmem, hnode⟩ := hd.edge_iff.1 hedge
      exact hmarked (h.closed b ih d hd c hmem) hnode

end Step

/-- Every round keeps the invariant, until the queue is empty. -/
theorem exists_invariant_run (image : Word) (n : Nat) :
    ∃ m ≤ n, Invariant image m (run image m) ∧ ((run image m).queue = [] ∨ m = n) := by
  induction n with
  | zero => exact ⟨0, le_rfl, invariant_start image, .inr rfl⟩
  | succ n ih =>
    obtain ⟨m, hm, hinvariant, hend⟩ := ih
    by_cases hqueue : (run image m).queue = []
    · exact ⟨m, by omega, hinvariant, .inl hqueue⟩
    · obtain rfl := hend.resolve_left hqueue
      exact ⟨m + 1, le_rfl, hinvariant.step hqueue, .inr rfl⟩

/-- The search ends. -/
theorem exists_run_queue_nil (image : Word) :
    ∃ n ≤ image.length + 1, Invariant image n (run image n) ∧ (run image n).queue = [] := by
  obtain ⟨n, hn, hinvariant, hend⟩ := exists_invariant_run image (image.length + 1)
  refine ⟨n, hn, hinvariant, hend.elim id ?_⟩
  -- After so many rounds every address was taken from the queue.
  intro heq
  have hle := hinvariant.rounds_le
  exact List.length_eq_zero_iff.1 (by omega)

end Search

/-- What is marked as code is what execution can reach, and the branch targets are where the code so
marked branches to in the image. A search with a queue ends after at most one round for each address
and the one behind the last, and then it has found the same marks and the same targets. -/
theorem marks_are_reachability (image : Word) :
    (∀ a, Marked image a ↔ Reachable image a) ∧
    (∀ b, b ∈ branchTargets (cells image) ↔
      ∃ a d, Marked image a ∧ InstructionAt image a d ∧ d.BranchesTo image a b) ∧
    ∃ n ≤ image.length + 1, (Search.run image n).queue = [] ∧
      (∀ a, a ∈ (Search.run image n).marked ↔ Marked image a) ∧
      ∀ b, b ∈ (Search.run image n).targets ↔ b ∈ branchTargets (cells image) := by
  obtain ⟨n, hn, hinvariant, hqueue⟩ := Search.exists_run_queue_nil image
  have hmarked (a : Nat) : a ∈ (Search.run image n).marked ↔ Marked image a := by
    rw [hinvariant.mem_marked_iff hqueue, marked_iff_reachable]
  refine ⟨fun _ => marked_iff_reachable, fun _ => mem_branchTargets_iff, n, hn, hqueue, hmarked, ?_⟩
  intro b
  rw [hinvariant.mem_targets, mem_branchTargets_iff]
  constructor
  · rintro ⟨a, ha, d, hd, hb⟩
    exact ⟨a, d, (hmarked a).1 ha, hd, hb⟩
  · rintro ⟨a, d, ha, hd, hb⟩
    exact ⟨a, (hmarked a).2 ha, d, hd, hb⟩

end BalancedTernary.Disassembly
