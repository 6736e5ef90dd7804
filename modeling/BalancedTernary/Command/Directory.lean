import BalancedTernary.Text.Basic

/-!
# Directories

A directory holds files and folders, found by following a path from its root. Reading, writing and
moving files are functions from one directory to the next, and fail as they do on disk.
-/

namespace BalancedTernary.Command

/-- The names of the folders on the way, and the last name. -/
abbrev Location := List Text

structure Directory where
  folders : List Location
  files : List (Location × Text)
deriving Repr

inductive PathFault where
  | missing
  | notFolder
  | isFolder
  | taken
  | full
  | other (text : String)
deriving DecidableEq, Repr

def PathFault.text : PathFault → String
  | missing => "no such file or directory"
  | notFolder => "not a directory"
  | isFolder => "is a directory"
  | taken => "file exists"
  | full => "no space left on device"
  | other text => text

inductive FileFault where
  | opening (path : Text) (fault : PathFault)
  | reading (path : Text) (fault : PathFault)
  | writing (path : Text) (fault : PathFault)
  | moving (source destination : Text) (fault : PathFault)
deriving DecidableEq, Repr

def FileFault.message : FileFault → String
  | opening path fault => s!"open {String.ofList path}: {fault.text}"
  | reading path fault => s!"read {String.ofList path}: {fault.text}"
  | writing path fault => s!"write {String.ofList path}: {fault.text}"
  | moving source destination fault =>
    s!"rename {String.ofList source} {String.ofList destination}: {fault.text}"

/-- What a path leads to: a file, a folder, or a free name in a folder. -/
inductive Node where
  | file (at_ : Location) (text : Text)
  | folder (at_ : Location)
  | free (at_ : Location)
deriving Repr

namespace Path

/-- One name of a path, taken without looking at any directory. -/
def cleanStep (rooted : Bool) (reversed : List Text) (name : Text) : List Text :=
  if name = [] ∨ name = ['.'] then reversed
  else if name = ['.', '.'] then
    match reversed with
    | last :: rest => if last = ['.', '.'] then name :: reversed else rest
    | [] => if rooted then [] else [name]
  else name :: reversed

/-- The shortest path that names the same place, if no name in it is a link. -/
def clean (path : Text) : Text :=
  let rooted := path.head? = some '/'
  let names := ((path.splitOn '/').foldl (cleanStep rooted) []).reverse
  let body := Text.join ['/'] names
  if rooted then '/' :: body else if body.isEmpty then ['.'] else body

/-- The path of the folder that a path leads into. -/
def parent (path : Text) : Text := clean (Text.trimEndBy (· != '/') path)

/-- The path of a name in a folder. -/
def child (folder name : Text) : Text :=
  if folder.getLast? = some '/' then folder ++ name else folder ++ ['/'] ++ name

/-- How the name of a temporary file starts. -/
def temporaryStem : Text := ".terasm-".toList

/-- The path of a temporary file in a folder. Messages show an asterisk for the part of the name
that is made up. -/
def temporary (folder : Text) : Text := child folder (temporaryStem ++ ['*'])

end Path

namespace Directory

/-- The names of the folders on the way to a location. -/
def foldersAbove (location : Location) : List Location :=
  (List.range location.length).map location.take

/-- A directory with the given files and the folders that they are in. -/
def ofFiles (files : List (Text × Text)) : Directory :=
  let located := files.map fun (path, text) =>
    ((path.splitOn '/').filter fun name => name != [] && name != ['.'], text)
  ⟨located.flatMap fun (location, _) => foldersAbove location, located⟩

/-- The files with their paths. -/
def toFiles (d : Directory) : List (Text × Text) :=
  d.files.map fun (location, text) => (Text.join ['/'] location, text)

def isFolder (d : Directory) (location : Location) : Bool :=
  location.isEmpty || d.folders.contains location

def file? (d : Directory) (location : Location) : Option Text := d.files.lookup location

def erase (d : Directory) (location : Location) : Directory :=
  { d with files := d.files.filter fun (other, _) => other != location }

def insert (d : Directory) (location : Location) (text : Text) : Directory :=
  { d with files := (location, text) :: (d.erase location).files }

/-- Follows names from a folder. A name after a file is a fault, and so is one after a free name. -/
def follow (d : Directory) (folder : Location) : List Text → Except PathFault Node
  | [] => .ok (.folder folder)
  | name :: rest =>
    if name = [] ∨ name = ['.'] then d.follow folder rest
    else if name = ['.', '.'] then d.follow folder.dropLast rest
    else
      let location := folder ++ [name]
      if d.isFolder location then d.follow location rest
      else
        match d.file? location, rest with
        | some text, [] => .ok (.file location text)
        | some _, _ :: _ => .error .notFolder
        | none, [] => .ok (.free location)
        | none, _ :: _ => .error .missing

def find (d : Directory) (path : Text) : Except PathFault Node :=
  if path.isEmpty then .error .missing else d.follow [] (path.splitOn '/')

/-- The text of a file. A folder can be opened but not read. -/
def read (d : Directory) (path : Text) : Except FileFault Text :=
  match d.find path with
  | .ok (.file _ text) => .ok text
  | .ok (.folder _) => .error (.reading path .isFolder)
  | .ok (.free _) => .error (.opening path .missing)
  | .error fault => .error (.opening path fault)

/-- Writes a file. A path with a slash at its end can only be that of a folder. -/
def write (d : Directory) (path text : Text) : Except FileFault Directory :=
  let bare := Text.trimEndBy (· == '/') path
  match if bare.isEmpty then d.find path else d.find bare with
  | .error fault => .error (.opening path fault)
  | .ok (.folder _) => .error (.opening path .isFolder)
  | .ok (.file location _) | .ok (.free location) =>
    if bare = path then .ok (d.insert location text) else .error (.opening path .isFolder)

/-- Moves a file. A folder is never replaced. -/
def move (d : Directory) (source : Location) (destination : Text) : Except PathFault Directory :=
  match d.file? source with
  | none => .error .missing
  | some text =>
    match d.find destination with
    | .error fault => .error fault
    | .ok (.folder _) => .error .taken
    | .ok (.file location _) | .ok (.free location) => .ok ((d.erase source).insert location text)

/-- The total length of all names. -/
def namesLength (d : Directory) : Nat :=
  (d.folders ++ d.files.map Prod.fst).flatten.flatten.length

/-- A name that nothing in the directory has, because it is longer than any. -/
def temporaryName (d : Directory) : Text := Path.temporaryStem ++ List.replicate d.namesLength '0'

/-- Makes an empty file with a name of its own in a folder. -/
def create (d : Directory) (folder : Text) : Except PathFault (Location × Directory) :=
  match d.find folder with
  | .error fault => .error fault
  | .ok (.free _) => .error .missing
  | .ok (.file _ _) => .error .notFolder
  | .ok (.folder location) =>
    let made := location ++ [d.temporaryName]
    .ok (made, d.insert made [])

end Directory

end BalancedTernary.Command
