import BalancedTernary.Command.Tool
import Mathlib.Data.List.Basic

/-!
# Runs of the tools

A run that fails leaves the directory as it was: a temporary file is the only thing that is written
before all faults are known, and it is gone again. Only a listing is printed later, so that standard
output can still refuse it when the image is in place. A run of the assembler that succeeds writes
the destination and nothing else.
-/

namespace BalancedTernary.Command

namespace Directory

variable {d : Directory} {location other : Location} {path text : Text}

/-! ## Files -/

theorem lookup_filter_ne {files : List (Location × Text)} (h : other ≠ location) :
    (files.filter fun (l, _) => l != location).lookup other = files.lookup other := by
  induction files with
  | nil => rfl
  | cons file files ih =>
    obtain ⟨l, s⟩ := file
    by_cases hl : l = location
    · have hne : (other == l) = false := beq_false_of_ne (hl ▸ h)
      rw [List.filter_cons_of_neg (by simp [hl]), List.lookup_cons, hne, ih]
    · rw [List.filter_cons_of_pos (by simp [hl]), List.lookup_cons, List.lookup_cons, ih]

theorem file?_insert_self (d : Directory) (location : Location) (text : Text) :
    (d.insert location text).file? location = some text :=
  List.lookup_cons_self

theorem file?_insert_of_ne (h : other ≠ location) :
    (d.insert location text).file? other = d.file? other := by
  have hne : (other == location) = false := beq_false_of_ne h
  unfold file? insert
  rw [List.lookup_cons, hne]
  exact lookup_filter_ne h

/-- The name of a temporary file is longer than every name in the directory. -/
theorem length_lt_temporaryName (hlocation : location ∈ d.files.map Prod.fst) {name : Text}
    (hname : name ∈ location) : name.length < d.temporaryName.length := by
  have hmem : name ∈ (d.folders ++ d.files.map Prod.fst).flatten :=
    List.mem_flatten.2 ⟨location, List.mem_append_right _ hlocation, hname⟩
  have hle : name.length ≤ d.namesLength := (List.sublist_flatten_of_mem hmem).length_le
  unfold temporaryName
  rw [List.length_append, List.length_replicate]
  have hstem : Path.temporaryStem.length = 8 := rfl
  omega

theorem temporary_notMem (d : Directory) (folder : Location) :
    folder ++ [d.temporaryName] ∉ d.files.map Prod.fst := by
  intro h
  exact absurd (length_lt_temporaryName h (List.mem_append_right _ List.mem_cons_self))
    (Nat.lt_irrefl _)

theorem erase_insert_self (d : Directory) (location : Location) (text : Text) :
    (d.insert location text).erase location = d.erase location := by
  unfold insert erase
  dsimp only
  rw [List.filter_cons_of_neg (by simp), List.filter_filter]
  simp

theorem erase_eq_self (h : location ∉ d.files.map Prod.fst) : d.erase location = d := by
  have hkeep : d.files.filter (fun (l, _) => l != location) = d.files := by
    rw [List.filter_eq_self]
    intro file hfile
    have hne : file.1 ≠ location := fun heq => h (heq ▸ List.mem_map_of_mem hfile)
    simpa using hne
  unfold erase
  rw [hkeep]

/-! ## Paths -/

/-- What is at a location that is no folder. -/
def leaf (d : Directory) (location : Location) : Node :=
  match d.file? location with
  | some text => .file location text
  | none => .free location

/-- The path leads to the location, which is that of a file or free. -/
def LeadsTo (d : Directory) (path : Text) (location : Location) : Prop :=
  d.find path = .ok (d.leaf location)

theorem leaf_injective (h : d.leaf location = d.leaf other) : location = other := by
  unfold leaf at h
  split at h <;> split at h <;> cases h <;> rfl

theorem leaf_ne_folder : d.leaf location ≠ .folder other := by
  unfold leaf
  split <;> exact nofun

/-- How a path ends in two directories with the same folders: in a folder, at a location that is no
folder, or with a fault, and in both of them alike. -/
inductive Alike (d d' : Directory) : Except PathFault Node → Except PathFault Node → Prop where
  | folder (location : Location) : Alike d d' (.ok (.folder location)) (.ok (.folder location))
  | leaf (location : Location) : Alike d d' (.ok (d.leaf location)) (.ok (d'.leaf location))
  | fault (fault fault' : PathFault) : Alike d d' (.error fault) (.error fault')

section Alike

variable {d' : Directory}

/-- A name that is no folder is the last one of its path, or else there is a fault. -/
theorem alike_name {folder : Location} {name : Text} {rest : List Text}
    (hblank : ¬ (name = [] ∨ name = ['.'])) (hup : name ≠ ['.', '.'])
    (hfolder : d.isFolder (folder ++ [name]) = false)
    (hfolder' : d'.isFolder (folder ++ [name]) = false) :
    Alike d d' (d.follow folder (name :: rest)) (d'.follow folder (name :: rest)) := by
  have hends (e : Directory) (h : e.isFolder (folder ++ [name]) = false) :
      (rest = [] → e.follow folder (name :: rest) = .ok (e.leaf (folder ++ [name]))) ∧
      (rest ≠ [] → ∃ fault, e.follow folder (name :: rest) = .error fault) := by
    rw [follow, if_neg hblank, if_neg hup]
    dsimp only
    rw [if_neg (by simp [h])]
    unfold Directory.leaf
    cases e.file? (folder ++ [name]) <;> cases rest <;> simp
  by_cases hrest : rest = []
  · rw [(hends d hfolder).1 hrest, (hends d' hfolder').1 hrest]
    exact .leaf _
  · obtain ⟨fault, h⟩ := (hends d hfolder).2 hrest
    obtain ⟨fault', h'⟩ := (hends d' hfolder').2 hrest
    rw [h, h']
    exact .fault _ _

theorem alike_follow (hfolders : d'.folders = d.folders) (folder : Location)
    (names : List Text) : Alike d d' (d.follow folder names) (d'.follow folder names) := by
  -- Only the last name of a path looks at the files; on the way there only the folders count.
  induction names generalizing folder with
  | nil => exact .folder folder
  | cons name rest ih =>
    by_cases hblank : name = [] ∨ name = ['.']
    · rw [follow, follow, if_pos hblank, if_pos hblank]
      exact ih folder
    by_cases hup : name = ['.', '.']
    · rw [follow, follow, if_neg hblank, if_neg hblank, if_pos hup, if_pos hup]
      exact ih folder.dropLast
    have hsame : d'.isFolder (folder ++ [name]) = d.isFolder (folder ++ [name]) := by
      unfold isFolder
      rw [hfolders]
    cases hfolder : d.isFolder (folder ++ [name]) with
    | false => exact alike_name hblank hup hfolder (hsame.trans hfolder)
    | true =>
      rw [follow, follow, if_neg hblank, if_neg hblank, if_neg hup, if_neg hup]
      dsimp only
      rw [hsame, hfolder, if_pos rfl, if_pos rfl]
      exact ih (folder ++ [name])

theorem alike_find (hfolders : d'.folders = d.folders) (path : Text) :
    Alike d d' (d.find path) (d'.find path) := by
  unfold find
  split
  · exact .fault _ _
  · exact alike_follow hfolders [] _

theorem LeadsTo.of_folders (h : d.LeadsTo path location) (hfolders : d'.folders = d.folders) :
    d'.LeadsTo path location := by
  have halike := alike_find hfolders path
  rw [show d.find path = _ from h] at halike
  unfold LeadsTo
  generalize d'.find path = found at halike ⊢
  generalize hleaf : Except.ok (d.leaf location) = first at halike
  cases halike with
  | folder l => exact absurd (Except.ok.inj hleaf) leaf_ne_folder
  | leaf l => rw [leaf_injective (Except.ok.inj hleaf)]
  | fault => exact nomatch hleaf

end Alike

theorem LeadsTo.read_insert (h : d.LeadsTo path location) (text : Text) :
    (d.insert location text).read path = .ok text := by
  have hfind : (d.insert location text).find path = _ := h.of_folders rfl
  unfold leaf at hfind
  rw [file?_insert_self] at hfind
  unfold read
  rw [hfind]

/-! ## Replacing a file -/

theorem move_cases (h : d.file? location = some text) (destination : Text) :
    (∃ fault, d.move location destination = .error fault) ∨
      ∃ target, d.LeadsTo destination target ∧
        d.move location destination = .ok ((d.erase location).insert target text) := by
  have halike := alike_find (d := d) rfl destination
  unfold move LeadsTo
  rw [h]
  dsimp only
  generalize d.find destination = found at halike ⊢
  cases halike with
  | folder l => exact .inl ⟨_, rfl⟩
  | leaf l =>
    refine .inr ⟨l, rfl, ?_⟩
    unfold leaf
    cases d.file? l <;> rfl
  | fault => exact .inl ⟨_, rfl⟩

/-- A temporary file is new, and empty. -/
theorem create_cases (d : Directory) (folder : Text) :
    (∃ fault, d.create folder = .error fault) ∨
      ∃ made, made ∉ d.files.map Prod.fst ∧ d.create folder = .ok (made, d.insert made []) := by
  unfold create
  split
  · exact .inl ⟨_, rfl⟩
  · exact .inl ⟨_, rfl⟩
  · exact .inl ⟨_, rfl⟩
  · exact .inr ⟨_, d.temporary_notMem _, rfl⟩

end Directory

/-! ## Requests -/

/-- Where the image of a source goes, given the arguments after the source. -/
def IsDestination (source : Text) : List Text → Text → Prop
  | [], destination =>
    (∃ stem, source = stem ++ ".asm".toList ∧ destination = stem ++ ".ter".toList) ∨
      (¬ ".asm".toList <:+ source ∧ destination = source ++ ".ter".toList)
  | [given], destination => destination = given
  | _, _ => False

theorem isDestination_default (source : Text) :
    IsDestination source [] (defaultDestination source) := by
  unfold defaultDestination
  dsimp only
  by_cases hsuffix : ".asm".toList <:+ source
  · obtain ⟨stem, rfl⟩ := hsuffix
    refine .inl ⟨stem, rfl, ?_⟩
    rw [if_pos (List.isSuffixOf_iff_suffix.2 (List.suffix_append _ _)), List.length_append,
      Nat.add_sub_cancel, List.take_left]
  · rw [if_neg (mt List.isSuffixOf_iff_suffix.1 hsuffix)]
    exact .inr ⟨hsuffix, rfl⟩

/-- What the assembler is asked for, other than help. -/
theorem request_assembler {arguments : List Text} {request : Request}
    (h : Tool.assembler.request arguments = .ok request) (hhelp : request ≠ .help) :
    ∃ o source others destination, request = .assemble o source destination ∧
      Options.read Tool.assembler.flags arguments = .ok (o, source :: others) ∧
        IsDestination source others destination := by
  unfold Tool.request at h
  split at h
  · exact nomatch h
  · rename_i o others hread
    split at h
    · exact absurd (Except.ok.inj h).symm hhelp
    · rcases others with _ | ⟨source, _ | ⟨destination, _ | ⟨another, others⟩⟩⟩
      · exact nomatch h
      · exact ⟨o, source, [], _, (Except.ok.inj h).symm, hread, isDestination_default source⟩
      · exact ⟨o, source, [destination], destination, (Except.ok.inj h).symm, hread, rfl⟩
      · exact nomatch h

/-! ## Runs -/

/-- The file that the path leads to has the text, and nothing else has changed. -/
def Changes (d after : Directory) (path text : Text) : Prop :=
  ∃ location, d.LeadsTo path location ∧ after.folders = d.folders ∧ after.read path = .ok text ∧
    after.file? location = some text ∧ ∀ other ≠ location, after.file? other = d.file? other

theorem changes_insert {d : Directory} {path : Text} {location : Location}
    (h : d.LeadsTo path location) (text : Text) :
    Changes d (d.insert location text) path text :=
  ⟨location, h, rfl, h.read_insert text, d.file?_insert_self location text,
    fun _ => Directory.file?_insert_of_ne⟩

open Assembly

/-! ## Steps on a scene -/

namespace Scene

variable {s after : Scene} {α β ε : Type}

theorem run_bind_of {x : StateM Scene α} {a : α} (h : x.run s = (a, after))
    (f : α → StateM Scene β) : (x >>= f).run s = (f a).run after := by
  rw [StateT.run_bind, h]
  rfl

theorem run_read (s : Scene) (path : Text) :
    (host.read path).run s = (s.directory.read path, s) := rfl

theorem run_log (s : Scene) (text : Text) :
    (host.log text).run s = ((), { s with errors := s.errors ++ text }) := rfl

theorem run_change_error (operation : Directory → Except ε Directory) {fault : ε}
    (h : operation s.directory = .error fault) :
    (change operation).run s = (.error fault, s) := by
  show change operation s = _
  unfold change
  rw [h]

theorem run_change_ok (operation : Directory → Except ε Directory) {d : Directory}
    (h : operation s.directory = .ok d) :
    (change operation).run s = (.ok (), { s with directory := d }) := by
  show change operation s = _
  unfold change
  rw [h]

theorem run_create_error {folder : Text} {fault : PathFault}
    (h : s.directory.create folder = .error fault) :
    (host.create folder).run s = (.error fault, s) := by
  show create folder s = _
  unfold create
  rw [h]

theorem run_create_ok {folder : Text} {made : Location} {d : Directory}
    (h : s.directory.create folder = .ok (made, d)) :
    (host.create folder).run s = (.ok made, { s with directory := d }) := by
  show create folder s = _
  unfold create
  rw [h]

/-- A temporary file with its text is where the destination leads to, or else it is still there. -/
theorem settle_cases (s : Scene) (made : Location) (destination text : Text) :
    (∃ fault, (host.settle made destination text).run s =
      (.error fault, { s with directory := s.directory.insert made text })) ∨
    ∃ location, s.directory.LeadsTo destination location ∧
      (host.settle made destination text).run s =
        (.ok (), { s with directory := (s.directory.erase made).insert location text }) := by
  have hfill : (host.fill made text).run s =
      (.ok (), { s with directory := s.directory.insert made text }) := rfl
  unfold Host.settle
  dsimp only
  rw [run_bind_of hfill]
  rcases Directory.move_cases (s.directory.file?_insert_self made text) destination with
    ⟨fault, h⟩ | ⟨location, hleads, h⟩
  · have hmove : (host.move made destination).run
        { s with directory := s.directory.insert made text } = (.error fault, _) :=
      run_change_error (fun d => d.move made destination) h
    dsimp only
    rw [run_bind_of hmove]
    exact .inl ⟨_, rfl⟩
  · have hmove : (host.move made destination).run
        { s with directory := s.directory.insert made text } = (.ok (), _) :=
      run_change_ok (fun d => d.move made destination) h
    dsimp only
    rw [run_bind_of hmove, Directory.erase_insert_self]
    exact .inr ⟨location, hleads.of_folders rfl, rfl⟩

/-- A file is replaced where its path leads to, or else the scene is as it was. -/
theorem replace_cases (s : Scene) (destination text : Text) :
    (∃ fault, (host.replace destination text).run s = (.error fault, s)) ∨
    ∃ location, s.directory.LeadsTo destination location ∧
      (host.replace destination text).run s =
        (.ok (), { s with directory := s.directory.insert location text }) := by
  unfold Host.replace
  dsimp only
  rcases s.directory.create_cases (Path.parent destination) with ⟨fault, h⟩ | ⟨made, hnew, h⟩
  · rw [run_bind_of (run_create_error h)]
    exact .inl ⟨_, rfl⟩
  · rw [run_bind_of (run_create_ok h)]
    dsimp only
    -- Nothing else has the name of the temporary file, so once that is gone all is as before.
    rcases settle_cases { s with directory := s.directory.insert made [] } made destination text
      with ⟨fault, h⟩ | ⟨location, hleads, h⟩
    · have hremove : (host.remove made).run
          { s with directory := (s.directory.insert made []).insert made text } = ((), s) := by
        show ((), { s with directory := _ }) = _
        rw [Directory.erase_insert_self, Directory.erase_insert_self, Directory.erase_eq_self hnew]
      rw [run_bind_of h]
      dsimp only
      rw [run_bind_of hremove]
      exact .inl ⟨_, rfl⟩
    · rw [run_bind_of h]
      dsimp only
      rw [Directory.erase_insert_self, Directory.erase_eq_self hnew]
      exact .inr ⟨location, hleads.of_folders rfl, rfl⟩

theorem run_print (s : Scene) (parts : List Text) :
    (host.print parts).run s =
      (if (deliver s.room parts).complete then .ok () else .error .full,
        { s with
          room := s.room.map (· - parts.length)
          output := s.output ++ (deliver s.room parts).text }) := rfl

/-- Printing leaves the directory alone, and the status says whether the listing was taken. -/
theorem printProgram_cases (s : Scene) (o : Options) (p : Program) :
    ((printProgram host o p).run s).2.directory = s.directory ∧
      (((printProgram host o p).run s).1 = 0 ↔ (deliver s.room (o.listing p)).complete) := by
  unfold printProgram
  rw [run_bind_of (run_print s _)]
  cases (deliver s.room (o.listing p)).complete with
  | false => exact ⟨rfl, iff_of_false Nat.one_ne_zero Bool.false_ne_true⟩
  | true =>
    cases o.symbols
    · exact ⟨rfl, iff_of_true rfl rfl⟩
    · exact ⟨rfl, iff_of_true rfl rfl⟩

theorem of_run_fail {message : String} {status : Nat}
    (h : (host.fail message).run s = (status, after)) :
    status ≠ 0 ∧ after.directory = s.directory := by
  obtain ⟨rfl, rfl⟩ := Prod.mk.inj h
  exact ⟨Nat.one_ne_zero, rfl⟩

/-- A run of the assembler fails and leaves the directory, or it places the image, and then its
status says whether the listing was taken. -/
theorem assembleFile_cases {o : Options} {source destination : Text} {status : Nat}
    (h : (assembleFile host o source destination).run s = (status, after)) :
    (status ≠ 0 ∧ after.directory = s.directory) ∨
    ∃ text p location, s.directory.read source = .ok text ∧ assemble o.config text = .ok p ∧
      s.directory.LeadsTo destination location ∧
      after.directory = s.directory.insert location p.output ∧
      (status = 0 ↔ (deliver s.room (o.listing p)).complete) := by
  unfold assembleFile at h
  rw [run_bind_of (run_read s source)] at h
  cases hread : s.directory.read source with
  | error fault =>
    rw [hread] at h
    exact .inl (of_run_fail h)
  | ok text =>
    rw [hread] at h
    dsimp only at h
    rw [run_bind_of (run_log s _)] at h
    unfold assembleText at h
    cases hassemble : assemble o.config text with
    | error fault =>
      rw [hassemble] at h
      have hfailed := of_run_fail h
      exact .inl hfailed
    | ok p =>
      rw [hassemble] at h
      dsimp only at h
      rcases replace_cases { s with errors := s.errors ++ o.log source text } destination p.output
        with ⟨fault, hreplace⟩ | ⟨location, hleads, hreplace⟩
      · rw [run_bind_of hreplace] at h
        have hfailed := of_run_fail h
        exact .inl hfailed
      · rw [run_bind_of hreplace] at h
        dsimp only at h
        rw [run_bind_of (run_log _ _)] at h
        have hprint := printProgram_cases { s with
          directory := s.directory.insert location p.output
          errors := s.errors ++ o.log source text ++ o.writtenLog destination p } o p
        rw [h] at hprint
        exact .inr ⟨text, p, location, rfl, hassemble, hleads, hprint.1, hprint.2⟩

theorem disassembleFile_cases {source destination : Text} {status : Nat}
    (h : (disassembleFile host source destination).run s = (status, after)) :
    status = 0 ∨ after.directory = s.directory := by
  unfold disassembleFile at h
  rw [run_bind_of (run_read s source)] at h
  split at h
  · exact .inr (of_run_fail h).2
  · exact .inr (of_run_fail h).2
  · split at h
    · exact .inr (of_run_fail h).2
    · rename_i disassembly _
      split at h
      · exact .inl (congrArg Prod.fst h).symm
      · cases hwrite : s.directory.write destination disassembly with
        | error fault =>
          have hrun : (host.write destination disassembly).run s = (.error fault, s) :=
            run_change_error (fun d => d.write destination disassembly) hwrite
          rw [run_bind_of hrun] at h
          exact .inr (of_run_fail h).2
        | ok written =>
          have hrun : (host.write destination disassembly).run s = (.ok (), _) :=
            run_change_ok (fun d => d.write destination disassembly) hwrite
          rw [run_bind_of hrun] at h
          exact .inl (congrArg Prod.fst h).symm

end Scene

/-! ## Runs of the tools -/

/-- A run that fails leaves the directory, unless the image is in place and only the listing has
been refused. -/
theorem directory_of_runWithin {room : Option Nat} {tool : Tool} {arguments : List Text}
    {d : Directory} (h : (tool.runWithin room arguments d).status ≠ 0) :
    (tool.runWithin room arguments d).directory = d ∨
    ∃ o source destination text p,
      tool.request arguments = .ok (.assemble o source destination) ∧
      d.read source = .ok text ∧ assemble o.config text = .ok p ∧
      Changes d (tool.runWithin room arguments d).directory destination p.output ∧
      (deliver room (o.listing p)).complete = false := by
  unfold Tool.runWithin Tool.execute at h ⊢
  cases hrequest : tool.request arguments with
  | error fault => exact .inl rfl
  | ok request =>
    rw [hrequest] at h
    cases request with
    | help => exact .inl rfl
    | assemble o source destination =>
      generalize hrun : (assembleFile Scene.host o source destination).run _ = ended at h ⊢
      obtain ⟨status, after⟩ := ended
      rcases Scene.assembleFile_cases hrun with
        ⟨-, hkept⟩ | ⟨text, p, location, hread, hp, hleads, hplaced, hstatus⟩
      · exact .inl hkept
      · refine .inr ⟨o, source, destination, text, p, rfl, hread, hp, ?_, ?_⟩
        · dsimp only
          rw [hplaced]
          exact changes_insert hleads p.output
        · exact Bool.eq_false_iff.2 (mt hstatus.2 h)
    | disassemble source destination =>
      generalize hrun : (disassembleFile Scene.host source destination).run _ = ended at h ⊢
      obtain ⟨status, after⟩ := ended
      exact .inl ((Scene.disassembleFile_cases hrun).resolve_left h)

/-- A run that fails changes nothing. A run of the assembler that succeeds, and not because help was
asked for, has assembled the source with the comment mark and the base of the options, and all that
it has changed is the destination, where the output of the program is. Here standard output takes
everything; `directory_of_runWithin` is for one that does not. -/
theorem run_atomic (tool : Tool) (arguments : List Text) (d : Directory) :
    ((tool.run arguments d).status ≠ 0 → (tool.run arguments d).directory = d) ∧
    ((Tool.assembler.run arguments d).status = 0 → Tool.assembler.request arguments ≠ .ok .help →
      ∃ o source others destination text p,
        Options.read Tool.assembler.flags arguments = .ok (o, source :: others) ∧
        IsDestination source others destination ∧ d.read source = .ok text ∧
        assemble (.ofSettings o.comment o.base) text = .ok p ∧
        Changes d (Tool.assembler.run arguments d).directory destination
          (p.deliverImage none).text) := by
  constructor
  · intro hstatus
    -- A standard output that takes everything refuses no listing.
    rcases directory_of_runWithin hstatus with h | ⟨_, _, _, _, p, -, -, -, -, h⟩
    · exact h
    · exact absurd h.symm Bool.false_ne_true
  · intro hstatus hhelp
    unfold Tool.run Tool.runWithin Tool.execute at hstatus ⊢
    cases hrequest : Tool.assembler.request arguments with
    | error fault =>
      rw [hrequest] at hstatus
      exact absurd hstatus Nat.one_ne_zero
    | ok request =>
      obtain ⟨o, source, others, destination, rfl, hread, hdestination⟩ :=
        request_assembler hrequest fun h => hhelp (h ▸ hrequest)
      rw [hrequest] at hstatus
      generalize hrun : (assembleFile Scene.host o source destination).run _ = ended at hstatus ⊢
      obtain ⟨status, after⟩ := ended
      rcases Scene.assembleFile_cases hrun with
        ⟨h, -⟩ | ⟨text, p, location, htext, hp, hleads, h, -⟩
      · exact absurd hstatus h
      · refine ⟨o, source, others, destination, text, p, hread, hdestination, htext, hp, ?_⟩
        rw [show (p.deliverImage none).text = p.output from List.flatten_singleton]
        dsimp only
        rw [h]
        exact changes_insert hleads p.output

/-- A source, and a folder that has the name of an image. -/
def workplace : Directory :=
  .ofFiles [("loop.asm".toList, "# again\n.code\nrestart\n".toList), ("out.ter/note".toList, [])]

/-- A listing with another comment mark than the default one. -/
def listed : List Text := ["--comment=#".toList, "-l".toList, "loop.asm".toList]

/-- The source is assembled where there is room for its image, and a folder is not replaced. -/
theorem workplace_run_atomic :
    ((Tool.assembler.run (listed ++ ["out.ter".toList]) workplace).status ≠ 0 ∧
      (Tool.assembler.run (listed ++ ["out.ter".toList]) workplace).directory = workplace) ∧
    (Tool.assembler.run listed workplace).status = 0 ∧
    Tool.assembler.request listed ≠ .ok .help ∧
    ∃ o source others destination text p,
      Options.read Tool.assembler.flags listed = .ok (o, source :: others) ∧
      IsDestination source others destination ∧ workplace.read source = .ok text ∧
      assemble (.ofSettings o.comment o.base) text = .ok p ∧
      Changes workplace (Tool.assembler.run listed workplace).directory destination
        (p.deliverImage none).text := by
  have hfail : (Tool.assembler.run (listed ++ ["out.ter".toList]) workplace).status ≠ 0 := by
    decide +kernel
  have hdone : (Tool.assembler.run listed workplace).status = 0 := by decide +kernel
  have hhelp : Tool.assembler.request listed ≠ .ok .help := by decide +kernel
  exact ⟨⟨hfail, (run_atomic .assembler _ workplace).1 hfail⟩, hdone, hhelp,
    (run_atomic .assembler listed workplace).2 hdone hhelp⟩

end BalancedTernary.Command
